import MixedMode.Call.Basic
/-!
# Entries — placing the arguments of a call

A call first finds its callee, chooses how to enter it and puts the arguments where the convention wants them.  What
comes out is an `Entry`, or the error that refuses the call before anything is entered.  Arguments come from the top of
the operand stack (`fromStack`) or from the caller's own words (`fromWords`); a native callee that is passed registers
gets them there, with or without a copy on the stack, and every other callee finds them on the stack.
-/
namespace MixedMode

variable {β σ : Type}

/-- A callee whose arguments are in place. -/
structure Entry (β σ : Type) where
  function : Function β σ
  target : CallTarget σ
  args : Arguments
  /-- The depth to which the operand stack goes back when the callee is left. -/
  floor : Nat

namespace Entry

/-- Place the words from slot `base` to the top of the stack. -/
def fromStack (convention : Convention) (f : Function β σ) (base : Nat) (s : CallState σ) :
    Entry β σ × CallState σ :=
  let target := CallTarget.resolve convention f
  if target.isNative && convention.passesInRegisters then
    if convention.keepsStack then (⟨f, target, .registers (s.stack.sliceFrom base), base⟩, s)
    else
      match s.onStack (·.splitOff base) with
      | (words, s) => (⟨f, target, .registers words, base⟩, s)
  else (⟨f, target, .stack base, base⟩, s)

/-- Place words that the caller holds; refused when the stack has to hold them and has no room. -/
def fromWords (convention : Convention) (f : Function β σ) (args : Array Word) (s : CallState σ) :
    Except RuntimeError (Entry β σ) × CallState σ :=
  let target := CallTarget.resolve convention f
  let base := s.stack.depth
  let inRegisters := target.isNative && convention.passesInRegisters
  let entry : Entry β σ := ⟨f, target, if inRegisters then .registers args else .stack base, base⟩
  if inRegisters && !convention.keepsStack then (.ok entry, s)
  else
    match s.onStack (·.extend args) with
    | (.error e, s) => (.error e, s)
    | (.ok (), s)   => (.ok entry, s)

/-- Put arguments on the stack and place them: a call from outside. -/
def fromOutside (convention : Convention) (f : Function β σ) (args : Array Word) (s : CallState σ) :
    Except RuntimeError (Entry β σ) × CallState σ :=
  let base := s.stack.depth
  match s.onStack (·.extend args) with
  | (.error e, s) => (.error e, s)
  | (.ok (), s)   =>
    match fromStack convention f base s with
    | (entry, s) => (.ok entry, s)

/-- The frame in which the callee runs when it is entered at this depth of the stack. -/
def frame (e : Entry β σ) (depth : Nat) : Frame β σ :=
  ⟨e.function, e.args, Array.replicate e.function.signature.locals 0, depth⟩

end Entry
end MixedMode
