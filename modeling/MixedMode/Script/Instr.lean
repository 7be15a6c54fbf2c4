import MixedMode.Stack
/-!
# Scripts — instructions for bodies

A script is a list of instructions over a frame and eight scratch words.  An instruction reads its sources from left
to right and writes its destination last.
-/
namespace MixedMode.Script

inductive Source where
  | word (value : Word)
  | pop
  | arg (index : Nat)
  | localSlot (index : Nat)
  | peek (distance : Nat)
  | scratch (index : Fin 8)
  | depth
  | arity
  /-- 1 when the arguments are in registers, else 0. -/
  | registers
  | moduleSize
  /-- The number of bodies entered so far. -/
  | entries
  deriving DecidableEq, Repr, Inhabited

inductive Dest where
  | push
  | localSlot (index : Nat)
  | scratch (index : Fin 8)
  | drop
  deriving DecidableEq, Repr, Inhabited

/-- What is computed from two words; a comparison gives 1 or 0. -/
inductive Arith where
  | add
  | sub
  | mul
  | lt
  | eq
  deriving DecidableEq, Repr, Inhabited

namespace Arith

def eval : Arith → Word → Word → Word
  | add, a, b => a + b
  | sub, a, b => a - b
  | mul, a, b => a * b
  | lt, a, b  => if a < b then 1 else 0
  | eq, a, b  => if a = b then 1 else 0

end Arith

inductive Instr where
  | move (dest : Dest) (source : Source)
  | arith (op : Arith) (dest : Dest) (left right : Source)
  /-- Jump when the source is 0. -/
  | jumpIfZero (source : Source) (target : Nat)
  | jump (target : Nat)
  | call (index : Nat)
  | callWith (dest : Dest) (index : Nat) (args : List Source)
  | ret (source : Source)
  | fail (text : String)
  /-- Do the instruction; when it fails, record the error and go on after it. -/
  | attempt (instr : Instr)
  /-- Record what the frame shows of itself. -/
  | snapshot
  deriving Inhabited

/-- The instructions of one body, by their numbers. -/
abbrev Code := Array Instr

end MixedMode.Script
