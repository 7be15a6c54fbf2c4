import MixedMode.Call.Entry
/-!
# Frames — what a body can do

A frame reads its arguments wherever they are, has its own locals, and may take off or look at no word but those above
its base.  What it does to the rest of the stack is only to call.
-/
namespace MixedMode

variable {β σ : Type}

namespace Frame

def arity (f : Frame β σ) : Nat := f.function.arity

def arg (f : Frame β σ) (stack : OperandStack) (index : Nat) : Except RuntimeError Word :=
  if index < f.arity then
    let word := match f.args with
      | .stack base      => stack.get? (base + index)
      | .registers words => words[index]?
    match word with
    | some w => .ok w
    | none   => .error .stackUnderflow
  else .error (.argumentOutOfRange f.function.name index f.arity)

def localOutOfRange (f : Frame β σ) (index : Nat) : RuntimeError :=
  .localOutOfRange f.function.name index f.locals.size

def getLocal (f : Frame β σ) (index : Nat) : Except RuntimeError Word :=
  match f.locals[index]? with
  | some w => .ok w
  | none   => .error (f.localOutOfRange index)

def setLocal (f : Frame β σ) (index : Nat) (value : Word) : Except RuntimeError Unit × Frame β σ :=
  if index < f.locals.size then (.ok (), { f with locals := f.locals.setIfInBounds index value })
  else (.error (f.localOutOfRange index), f)

/-- How many words of the stack are the frame's own. -/
def available (f : Frame β σ) (stack : OperandStack) : Nat := stack.depth - f.base

def pop (f : Frame β σ) (s : CallState σ) : Except RuntimeError Word × CallState σ :=
  if f.available s.stack = 0 then (.error .stackUnderflow, s) else s.onStack (·.pop)

def peek (f : Frame β σ) (stack : OperandStack) (distance : Nat) : Except RuntimeError Word :=
  if distance < f.available stack then stack.peek distance else .error .stackUnderflow

/-- Place the words on top of the stack as the arguments of a call. -/
def placeCall (cx : Context β σ) (f : Frame β σ) (index : Nat) (s : CallState σ) :
    Except RuntimeError (Entry β σ) × CallState σ :=
  match cx.module.function? index with
  | none => (.error (.unknownFunction index), s)
  | some callee =>
    if f.available s.stack < callee.arity then (.error .stackUnderflow, s)
    else
      match Entry.fromStack cx.convention callee (s.stack.depth - callee.arity) s with
      | (entry, s) => (.ok entry, s)

/-- Place words held by the caller as the arguments of a call. -/
def placeCallWith (cx : Context β σ) (index : Nat) (args : Array Word) (s : CallState σ) :
    Except RuntimeError (Entry β σ) × CallState σ :=
  match cx.module.function? index with
  | none => (.error (.unknownFunction index), s)
  | some callee =>
    if args.size = callee.arity then Entry.fromWords cx.convention callee args s
    else (.error (.arityMismatch callee.name callee.arity args.size), s)

def describe (f : Frame β σ) (convention : Convention) : String :=
  let words (ws : Array Word) : String := "[" ++ ", ".intercalate (ws.toList.map fun w => toString w.toInt) ++ "]"
  let args := match f.args with
    | .stack base   => s!"Stack \x7b base: {base} \x7d"
    | .registers ws => s!"Registers({words ws})"
  s!"Frame \x7b function: {Text.quoted f.function.name}, convention: {convention.label}, args: {args}, " ++
    s!"locals: {words f.locals}, stack_base: {f.base} \x7d"

end Frame
end MixedMode
