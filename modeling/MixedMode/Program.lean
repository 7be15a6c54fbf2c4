import MixedMode.Convention
import MixedMode.Stack
/-!
# Programs — what a body may do with its frame

A body touches the machine only through its frame: it performs one operation (`Op`), gets the answer, and chooses the
next operation from the answers so far.  `Program` is that decision tree.  An operation that is refused answers with
the error, so a body may give up (`throw`) or go on (`try`), and the tree says which.

Besides the frame a body may keep words of its own between invocations; they are one value of the type `σ`, read and
replaced as a whole (`memory`, `keep`).
-/
namespace MixedMode

/-- What the callers of a function know of it. -/
structure Signature where
  name : String
  arity : Nat
  /-- Local slots, parameters not counted. -/
  locals : Nat
  deriving DecidableEq, Repr, Inhabited

inductive Op (σ : Type) : Type where
  /-- Read an argument, wherever the convention put it. -/
  | arg (index : Nat)
  | getLocal (index : Nat)
  | setLocal (index : Nat) (value : Word)
  | push (value : Word)
  /-- Take a word off the stack, one of those above the frame's base. -/
  | pop
  /-- Look at a word above the frame's base; the top one has distance 0. -/
  | peek (distance : Nat)
  /-- Call a function of the module on the words on top of the stack, which its result replaces. -/
  | call (index : Nat)
  /-- Call a function of the module on words held by the caller. -/
  | callWith (index : Nat) (args : Array Word)
  /-- The depth of the whole operand stack. -/
  | depth
  | convention
  | argsInRegisters
  | describe
  | self
  | moduleName
  | moduleSize
  | signature (index : Nat)
  /-- Has a function of the module a native entry? -/
  | compiled (index : Nat)
  /-- Has the function that runs a native entry? -/
  | selfCompiled
  | memory
  | keep (kept : σ)

def Op.Answer {σ : Type} : Op σ → Type
  | .arg _ | .getLocal _ | .pop | .peek _ | .callWith _ _ => Except RuntimeError Word
  | .setLocal _ _ | .push _ | .call _                     => Except RuntimeError Unit
  | .depth | .moduleSize                                  => Nat
  | .convention                                           => Convention
  | .argsInRegisters | .selfCompiled                      => Bool
  | .describe | .moduleName                               => String
  | .self                                                 => Signature
  | .signature _                                          => Option Signature
  | .compiled _                                           => Option Bool
  | .memory                                               => σ
  | .keep _                                               => Unit

/-- A program over frame operations that ends in a value of `α`. -/
inductive Program (σ α : Type) : Type where
  | done (value : α)
  | step (op : Op σ) (next : op.Answer → Program σ α)

/-- A body: it ends in the word it returns or in the error it fails with. -/
abbrev Body (σ : Type) := Program σ (Except RuntimeError Word)

namespace Program

variable {σ α β γ : Type}

def ask (op : Op σ) : Program σ op.Answer := step op done

/-- Run `p`, then go on from its value. -/
def bind : Program σ α → (α → Program σ β) → Program σ β
  | done a, f    => f a
  | step op k, f => step op fun answer => bind (k answer) f

instance : Monad (Program σ) where
  pure := done
  bind := bind

theorem pure_eq (a : α) : (pure a : Program σ α) = done a := rfl

theorem bind_eq (p : Program σ α) (f : α → Program σ β) : p >>= f = p.bind f := rfl

@[simp]
theorem bind_done : ∀ p : Program σ α, p.bind done = p
  | done _    => rfl
  | step op k => congrArg (step op) (funext fun answer => bind_done (k answer))

theorem bind_assoc (f : α → Program σ β) (g : β → Program σ γ) :
    ∀ p : Program σ α, (p.bind f).bind g = p.bind fun a => (f a).bind g
  | done _    => rfl
  | step op k => congrArg (step op) (funext fun answer => bind_assoc f g (k answer))

end Program

/-- A stretch of a body: it goes on with a value or fails. -/
abbrev Action (σ α : Type) := ExceptT RuntimeError (Program σ) α

namespace Action

variable {σ : Type}

def arg (index : Nat) : Action σ Word := Program.ask (.arg index)

def getLocal (index : Nat) : Action σ Word := Program.ask (.getLocal index)

def setLocal (index : Nat) (value : Word) : Action σ Unit := Program.ask (.setLocal index value)

def push (value : Word) : Action σ Unit := Program.ask (.push value)

def pop : Action σ Word := Program.ask .pop

def peek (distance : Nat) : Action σ Word := Program.ask (.peek distance)

def call (index : Nat) : Action σ Unit := Program.ask (.call index)

def callWith (index : Nat) (args : Array Word) : Action σ Word := Program.ask (.callWith index args)

/-- Perform an operation that is never refused. -/
def observe (op : Op σ) : Action σ op.Answer := ExceptT.lift (Program.ask op)

def depth : Action σ Nat := observe .depth

def convention : Action σ Convention := observe .convention

def argsInRegisters : Action σ Bool := observe .argsInRegisters

def describe : Action σ String := observe .describe

def self : Action σ Signature := observe .self

def moduleName : Action σ String := observe .moduleName

def moduleSize : Action σ Nat := observe .moduleSize

def memory : Action σ σ := observe .memory

def keep (kept : σ) : Action σ Unit := observe (.keep kept)

/-- Run a stretch and go on with how it ended. -/
def outcome {α : Type} (a : Action σ α) : Action σ (Except RuntimeError α) := ExceptT.lift a

/-- Go on or fail as told. -/
def ofExcept {α : Type} (r : Except RuntimeError α) : Action σ α := ExceptT.mk (Program.done r)

end Action
end MixedMode
