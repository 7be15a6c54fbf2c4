import MixedMode.Program
import MixedMode.Text.Quoted
/-!
# Functions and modules — what a loader produces

A function is a signature with two ways to run it: bytecode, which only the interpreter can read, and a native entry
once there is one.  A module is its functions in the order they were defined; a function is named by its index, and
the entry point is the last function, whatever its name.
-/
namespace MixedMode

variable {β σ : Type}

/-- One callable unit: `bytecode` is opaque to the machine, `native` is the body behind its native entry. -/
structure Function (β σ : Type) where
  signature : Signature
  bytecode : Option β
  native : Option (Body σ)

/-- The collaborator that runs bytecode: the body of a function that is not entered natively. -/
abbrev Interpreter (β σ : Type) := Signature → Option β → Body σ

namespace Function

def name (f : Function β σ) : String := f.signature.name

def arity (f : Function β σ) : Nat := f.signature.arity

def isCompiled (f : Function β σ) : Bool := f.native.isSome

/-- The diagnostic text of a function; of its bytecode it only tells whether there is any. -/
def describe (f : Function β σ) : String :=
  let bytecode := if f.bytecode.isSome then ".." else "<empty>"
  s!"FunctionDescriptor \x7b name: {Text.quoted f.name}, arity: {f.arity}, local_count: {f.signature.locals}, " ++
    s!"bytecode: Bytecode({bytecode}), compiled: {f.isCompiled} \x7d"

end Function

structure Module (β σ : Type) where
  name : String
  functions : Array (Function β σ)

namespace Module

def empty (name : String) : Module β σ := ⟨name, #[]⟩

instance : Inhabited (Module β σ) := ⟨empty ""⟩

/-- The module with one more function, which is now its last. -/
def add (m : Module β σ) (f : Function β σ) : Module β σ := { m with functions := m.functions.push f }

def size (m : Module β σ) : Nat := m.functions.size

def isEmpty (m : Module β σ) : Bool := m.functions.isEmpty

def function? (m : Module β σ) (index : Nat) : Option (Function β σ) := m.functions[index]?

/-- The index of the entry point: the last function. -/
def entryIndex? (m : Module β σ) : Option Nat := if m.size = 0 then none else some (m.size - 1)

/-- How many functions have a native entry. -/
def compiledCount (m : Module β σ) : Nat := m.functions.countP Function.isCompiled

@[simp]
theorem size_add (m : Module β σ) (f : Function β σ) : (m.add f).size = m.size + 1 := Array.size_push ..

theorem entryIndex?_add (m : Module β σ) (f : Function β σ) : (m.add f).entryIndex? = some m.size := by
  simp [entryIndex?]

theorem function?_add (m : Module β σ) (f : Function β σ) : (m.add f).function? m.size = some f := by
  simp [function?, add, size]

theorem entryIndex?_eq_none (m : Module β σ) : m.entryIndex? = none ↔ m.size = 0 := by
  simp [entryIndex?]

end Module
end MixedMode
