import MixedMode.Stack
/-!
# Journals — what scripts leave behind

Scripts share one journal: a trace of what happened, the number of bodies entered, and the fuel that is left.  A step
begins with a full tank and an empty trace; the trace keeps its first records and counts the others.
-/
namespace MixedMode.Script

/-- Which of its two bodies a function runs. -/
inductive Mode where
  | interpreted
  | native
  deriving DecidableEq, Repr, Inhabited

inductive Record where
  | enter (function : String) (mode : Mode) (inRegisters : Bool) (depth : Nat)
  | exit (function : String) (result : Except RuntimeError Word) (depth : Nat)
  | caught (error : RuntimeError) (depth : Nat)
  | snapshot (module : String) (convention : String) (arity : Nat) (frame : String)

structure Journal where
  records : Array Record
  dropped : Nat
  entries : Nat
  fuel : Nat
  asked : Nat

namespace Journal

/-- How many records a step keeps. -/
def capacity : Nat := 80

/-- How many instructions a step may take, and one more. -/
def tank : Nat := 50000

def new : Journal := ⟨#[], 0, 0, tank, 0⟩

instance : Inhabited Journal := ⟨new⟩

/-- The journal at the beginning of the next step. -/
def nextStep (j : Journal) : Journal := { j with records := #[], dropped := 0, fuel := tank }

def record (j : Journal) (r : Record) : Journal :=
  if j.records.size < capacity then { j with records := j.records.push r } else { j with dropped := j.dropped + 1 }

def countEntry (j : Journal) : Journal := { j with entries := j.entries + 1 }

def countQuestion (j : Journal) : Journal := { j with asked := j.asked + 1 }

def burn (j : Journal) : Journal := { j with fuel := j.fuel - 1 }

end Journal
end MixedMode.Script
