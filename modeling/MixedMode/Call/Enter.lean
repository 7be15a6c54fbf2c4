import MixedMode.Call.Frame
/-!
# Entering — running bodies

`enter` runs the body of a placed callee in a fresh frame, unless as many bodies are open as there may be.  The state
counts them: one more before the body, one less after it.  Everything here is structural recursion, over the body and
over a bound on how deep calls are nested in it; the counter refuses a call before that bound is met
(`Context.enter_of_le`).
-/
namespace MixedMode

variable {β σ α : Type}

/-- A way to run a callee whose arguments are in place. -/
abbrev Enter (β σ : Type) := Entry β σ → CallState σ → Except RuntimeError Word × CallState σ

/-- Run a callee, then take from the stack whatever is above the entry's floor. -/
def Enter.leave (enter : Enter β σ) (entry : Entry β σ) (s : CallState σ) :
    Except RuntimeError Word × CallState σ :=
  match enter entry s with
  | (r, s) => (r, s.truncate entry.floor)

namespace Frame

/-- Call a function on the words on top of the stack.  Once they are placed they are gone, whatever the outcome; a
result is put in their place. -/
def call (cx : Context β σ) (enter : Enter β σ) (f : Frame β σ) (index : Nat) (s : CallState σ) :
    Except RuntimeError Unit × CallState σ :=
  match f.placeCall cx index s with
  | (.error e, s)   => (.error e, s)
  | (.ok entry, s) =>
    match Enter.leave enter entry s with
    | (.error e, s) => (.error e, s)
    | (.ok w, s)    => s.onStack (·.push w)

/-- Call a function on words held by the caller.  Whatever the outcome, the stack is as it was. -/
def callWith (cx : Context β σ) (enter : Enter β σ) (index : Nat) (args : Array Word) (s : CallState σ) :
    Except RuntimeError Word × CallState σ :=
  match placeCallWith cx index args s with
  | (.error e, s)   => (.error e, s)
  | (.ok entry, s) => Enter.leave enter entry s

end Frame

namespace Context

def perform (cx : Context β σ) (enter : Enter β σ) :
    (op : Op σ) → Frame β σ → CallState σ → op.Answer × Frame β σ × CallState σ
  | .arg index, f, s            => (f.arg s.stack index, f, s)
  | .getLocal index, f, s       => (f.getLocal index, f, s)
  | .setLocal index value, f, s =>
    match f.setLocal index value with
    | (r, f) => (r, f, s)
  | .push value, f, s =>
    match s.onStack (·.push value) with
    | (r, s) => (r, f, s)
  | .pop, f, s =>
    match f.pop s with
    | (r, s) => (r, f, s)
  | .peek distance, f, s => (f.peek s.stack distance, f, s)
  | .call index, f, s =>
    match f.call cx enter index s with
    | (r, s) => (r, f, s)
  | .callWith index args, f, s =>
    match Frame.callWith cx enter index args s with
    | (r, s) => (r, f, s)
  | .depth, f, s           => (s.stack.depth, f, s)
  | .convention, f, s      => (cx.convention, f, s)
  | .argsInRegisters, f, s => (f.args.inRegisters, f, s)
  | .describe, f, s        => (f.describe cx.convention, f, s)
  | .self, f, s            => (f.function.signature, f, s)
  | .moduleName, f, s      => (cx.module.name, f, s)
  | .moduleSize, f, s      => (cx.module.size, f, s)
  | .signature index, f, s => ((cx.module.function? index).map (·.signature), f, s)
  | .compiled index, f, s  => ((cx.module.function? index).map (·.isCompiled), f, s)
  | .selfCompiled, f, s    => (f.function.isCompiled, f, s)
  | .memory, f, s          => (s.kept, f, s)
  | .keep kept, f, s       => ((), f, { s with kept })

end Context

/-- Run a program in a frame: perform its operations in turn, each on what the earlier ones left. -/
def Program.run (perform : (op : Op σ) → Frame β σ → CallState σ → op.Answer × Frame β σ × CallState σ) :
    Program σ α → Frame β σ → CallState σ → α × Frame β σ × CallState σ
  | .done a, f, s    => (a, f, s)
  | .step op k, f, s =>
    match perform op f s with
    | (answer, f, s) => (k answer).run perform f s

/-- A program after another one runs on what that one left. -/
theorem Program.run_bind {γ : Type}
    (perform : (op : Op σ) → Frame β σ → CallState σ → op.Answer × Frame β σ × CallState σ)
    (k : α → Program σ γ) : ∀ (p : Program σ α) (f : Frame β σ) (s : CallState σ),
      (p.bind k).run perform f s =
        (k (p.run perform f s).1).run perform (p.run perform f s).2.1 (p.run perform f s).2.2
  | .done _, _, _     => rfl
  | .step op k', f, s => run_bind perform k (k' (perform op f s).1) (perform op f s).2.1 (perform op f s).2.2

namespace Context

/-- Run a callee in which calls are nested no deeper than this many levels.  With as many bodies open as there may be
the call is refused, before anything is counted. -/
def enter (cx : Context β σ) : (levels : Nat) → Enter β σ
  | 0, _, s => (.error (.recursionLimit cx.maxDepth), s)
  | levels + 1, entry, s =>
    if cx.maxDepth ≤ s.nesting then (.error (.recursionLimit cx.maxDepth), s)
    else
      let s := s.countEntry cx.convention entry.function entry.target
      let body := cx.bodyOf entry.function entry.target
      match body.run (cx.perform (cx.enter levels)) (entry.frame s.stack.depth) s.deeper with
      | (r, _, s) => (r, s.shallower)

/-- A call from outside.  Whatever the outcome, the stack is as deep as it was. -/
def invoke (cx : Context β σ) (f : Function β σ) (args : Array Word) (s : CallState σ) :
    Except RuntimeError Word × CallState σ :=
  match Entry.fromOutside cx.convention f args s with
  | (.error e, s)   => (.error e, s)
  | (.ok entry, s) => Enter.leave (cx.enter cx.maxDepth) entry s

end Context
end MixedMode
