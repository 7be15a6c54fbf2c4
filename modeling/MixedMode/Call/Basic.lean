import MixedMode.Log.Event
import MixedMode.Module
/-!
# Call chains — what a run holds and what a frame sees

`Context` is what stays the same for a whole run, `CallState` what changes, `Frame` the callee's side of one call.
-/
namespace MixedMode

variable {β σ α : Type}

/-- How a callee is entered. -/
inductive CallTarget (σ : Type) where
  | native (body : Body σ)
  | interpret

namespace CallTarget

/-- A native entry is taken when there is one and the convention uses them. -/
def resolve (convention : Convention) (f : Function β σ) : CallTarget σ :=
  match f.native with
  | some body => if convention.usesNative then native body else interpret
  | none      => interpret

def isNative : CallTarget σ → Bool
  | native _  => true
  | interpret => false

def label : CallTarget σ → String
  | native _  => "Native"
  | interpret => "Interpret"

theorem isNative_resolve (convention : Convention) (f : Function β σ) :
    (resolve convention f).isNative = (convention.usesNative && f.isCompiled) := by
  unfold resolve Function.isCompiled
  cases f.native <;> cases convention.usesNative <;> rfl

end CallTarget

/-- Where the arguments of a frame are: on the operand stack from slot `base` upwards, or in registers. -/
inductive Arguments where
  | stack (base : Nat)
  | registers (words : Array Word)
  deriving DecidableEq, Repr, Inhabited

def Arguments.inRegisters : Arguments → Bool
  | stack _     => false
  | registers _ => true

/-- The callee's side of one call: what it runs, where its arguments are, its locals, and the depth of the operand
stack when it was entered, below which nothing is its own. -/
structure Frame (β σ : Type) where
  function : Function β σ
  args : Arguments
  locals : Array Word
  base : Nat

/-- What stays the same for a whole run. -/
structure Context (β σ : Type) where
  module : Module β σ
  interpreter : Interpreter β σ
  convention : Convention
  maxDepth : Nat

/-- The body that runs when a callee is entered. -/
def Context.bodyOf (cx : Context β σ) (f : Function β σ) : CallTarget σ → Body σ
  | .native body => body
  | .interpret   => cx.interpreter f.signature f.bytecode

/-- What a run changes: the operand stack, the counters, the log, what the bodies keep, and how deep calls are nested. -/
structure CallState (σ : Type) where
  stack : OperandStack
  stats : CallStats
  events : Array Event
  kept : σ
  /-- One more for each body that is entered and one less for each that is left, counted by hand at either end. -/
  nesting : Nat

namespace CallState

def onStack : CallState σ → (OperandStack → α × OperandStack) → α × CallState σ
  | ⟨stack, stats, events, kept, nesting⟩, f =>
    match f stack with
    | (a, stack) => (a, ⟨stack, stats, events, kept, nesting⟩)

def truncate : CallState σ → Nat → CallState σ
  | ⟨stack, stats, events, kept, nesting⟩, depth => ⟨stack.truncate depth, stats, events, kept, nesting⟩

/-- The state when a body begins. -/
def deeper (s : CallState σ) : CallState σ := { s with nesting := s.nesting + 1 }

/-- The state when a body is over. -/
def shallower (s : CallState σ) : CallState σ := { s with nesting := s.nesting - 1 }

@[simp]
theorem stack_deeper (s : CallState σ) : s.deeper.stack = s.stack := rfl

@[simp]
theorem kept_deeper (s : CallState σ) : s.deeper.kept = s.kept := rfl

@[simp]
theorem onStack_fst (s : CallState σ) (f : OperandStack → α × OperandStack) :
    (s.onStack f).1 = (f s.stack).1 := rfl

@[simp]
theorem onStack_snd (s : CallState σ) (f : OperandStack → α × OperandStack) :
    (s.onStack f).2 = { s with stack := (f s.stack).2 } := rfl

theorem truncate_eq (s : CallState σ) (depth : Nat) :
    s.truncate depth = { s with stack := s.stack.truncate depth } := rfl

/-- Count a body entry, and log it when it is a fallback. -/
def countEntry (s : CallState σ) (convention : Convention) (f : Function β σ) (target : CallTarget σ) :
    CallState σ :=
  if target.isNative then { s with stats := s.stats.countNative }
  else if convention.usesNative then
    { s with stats := s.stats.countInterpreted true, events := s.events.push (.fellBack f.name convention) }
  else { s with stats := s.stats.countInterpreted false }

@[simp]
theorem stack_countEntry (s : CallState σ) (convention : Convention) (f : Function β σ) (target : CallTarget σ) :
    (s.countEntry convention f target).stack = s.stack := by
  unfold countEntry
  repeat' split
  all_goals rfl

@[simp]
theorem nesting_countEntry (s : CallState σ) (convention : Convention) (f : Function β σ) (target : CallTarget σ) :
    (s.countEntry convention f target).nesting = s.nesting := by
  unfold countEntry
  repeat' split
  all_goals rfl

theorem nesting_entered (s : CallState σ) (convention : Convention) (f : Function β σ) (target : CallTarget σ) :
    (s.countEntry convention f target).deeper.nesting = s.nesting + 1 :=
  congrArg (· + 1) (s.nesting_countEntry convention f target)

@[simp]
theorem kept_countEntry (s : CallState σ) (convention : Convention) (f : Function β σ) (target : CallTarget σ) :
    (s.countEntry convention f target).kept = s.kept := by
  unfold countEntry
  repeat' split
  all_goals rfl

end CallState
end MixedMode
