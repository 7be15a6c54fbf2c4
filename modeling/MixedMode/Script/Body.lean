import MixedMode.Module
import MixedMode.Script.Instr
import MixedMode.Script.Journal
/-!
# Bodies from scripts

A script runs from its first instruction with its scratch words at 0 until it returns or fails.  Every instruction
takes a unit of fuel from the journal first, and a script without fuel fails, so a run of a script takes no more
instructions than there was fuel when it was entered.
-/
namespace MixedMode.Script

/-- The scratch words of one run of a body. -/
abbrev Scratch := Vector Word 8

inductive Flow where
  | next
  | jump (target : Nat)
  | ret (value : Word)

abbrev Step (α : Type) := Action Journal α

def update (f : Journal → Journal) : Step Unit := do
  let journal ← Action.memory
  Action.keep (f journal)

def Source.read (h : Scratch) : Source → Step Word
  | .word value      => return value
  | .pop             => Action.pop
  | .arg index       => Action.arg index
  | .localSlot index => Action.getLocal index
  | .peek distance   => Action.peek distance
  | .scratch index   => return h.get index
  | .depth           => return .ofNat (← Action.depth)
  | .arity           => return .ofNat (← Action.self).arity
  | .registers       => return if (← Action.argsInRegisters) then 1 else 0
  | .moduleSize      => return .ofNat (← Action.moduleSize)
  | .entries         => return .ofNat (← Action.memory).entries

def Dest.write (h : Scratch) (value : Word) : Dest → Step Scratch
  | .push            => do Action.push value; return h
  | .localSlot index => do Action.setLocal index value; return h
  | .scratch index   => return h.set index.val value index.isLt
  | .drop            => return h

def Instr.perform (h : Scratch) : Instr → Step (Flow × Scratch)
  | .move dest source => do
    let value ← source.read h
    return (.next, ← dest.write h value)
  | .arith op dest left right => do
    let a ← left.read h
    let b ← right.read h
    return (.next, ← dest.write h (op.eval a b))
  | .jumpIfZero source target => do
    let value ← source.read h
    return (if value = 0 then .jump target else .next, h)
  | .jump target => return (.jump target, h)
  | .call index  => do
    Action.call index
    return (.next, h)
  | .callWith dest index args => do
    let words ← args.mapM (Source.read h)
    let value ← Action.callWith index words.toArray
    return (.next, ← dest.write h value)
  | .ret source    => return (.ret (← source.read h), h)
  | .fail text     => throw (.raised text)
  | .attempt instr =>
    tryCatch (instr.perform h) fun e => do
      let depth ← Action.depth
      update (·.record (.caught e depth))
      return (.next, h)
  | .snapshot => do
    let module ← Action.moduleName
    let convention ← Action.convention
    let self ← Action.self
    let frame ← Action.describe
    update (·.record (.snapshot module convention.name self.arity frame))
    return (.next, h)

/-- Run a script from an instruction on.  `rounds` bounds the instructions and is never the reason to stop, as each of
them takes a unit of fuel. -/
def runFrom (code : Code) : (rounds position : Nat) → Scratch → Step Word
  | 0, _, _ => throw (.raised "fuel exhausted")
  | rounds + 1, position, h =>
    match code[position]? with
    | none => do
      let self ← Action.self
      throw (.raised s!"'{self.name}' ended without return")
    | some instr => do
      update Journal.burn
      if (← Action.memory).fuel = 0 then throw (.raised "fuel exhausted")
      match ← instr.perform h with
      | (.next, h)        => runFrom code rounds (position + 1) h
      | (.jump target, h) => runFrom code rounds target h
      | (.ret value, _)   => return value

/-- The body that runs a script and records its entry and its exit. -/
def Code.body (code : Code) (mode : Mode) : Body Journal := ExceptT.run do
  let self ← Action.self
  let inRegisters ← Action.argsInRegisters
  let depth ← Action.depth
  update fun journal => journal.countEntry.record (.enter self.name mode inRegisters depth)
  let fuel := (← Action.memory).fuel
  let result ← Action.outcome (runFrom code (fuel + 1) 0 (Vector.replicate 8 0))
  let depth ← Action.depth
  update (·.record (.exit self.name result depth))
  Action.ofExcept result

/-- The interpreter of scripts; bytecode need not hold one. -/
def interpreter : Interpreter (Option Code) Journal := fun self bytecode =>
  match bytecode with
  | some (some code) => Code.body code .interpreted
  | _                => .done (.error (.raised s!"'{self.name}' has no bytecode"))

/-- A function from its scripts; `compiled` asks for a native entry even when there is no script for it. -/
def function (signature : Signature) (code native : Option Code) (compiled : Bool) :
    Function (Option Code) Journal :=
  { signature
    bytecode := if code.isSome || native.isSome then some code else none
    native := match native with
      | some script => some (Code.body script .native)
      | none =>
        if compiled then some (.done (.error (.raised s!"'{signature.name}' has no native code"))) else none }

end MixedMode.Script
