import MixedMode.Error
import MixedMode.Text.Blank
/-!
# Calling conventions — how arguments cross a call boundary

One convention holds for a whole run.  It decides whether a callee with a native entry is entered natively, whether a
native callee finds its arguments in registers, and whether those arguments also stay on the operand stack.

| convention      | native callee reads its arguments from | operand stack during the call |
|-----------------|----------------------------------------|-------------------------------|
| `interpreter`   | (never native)                         | holds the arguments           |
| `direct`        | the operand stack                      | holds the arguments           |
| `passParameter` | registers                              | without the arguments         |
| `operandStack`  | registers                              | holds a copy of the arguments |

A name is read with any blanks around it and in any case of its ASCII letters (`ofText`).
-/
namespace MixedMode

inductive Convention where
  | interpreter
  | direct
  | passParameter
  | operandStack
  deriving DecidableEq, Repr, Inhabited

namespace Convention

/-- Every convention, from the least to the most optimized. -/
def all : List Convention := [interpreter, direct, passParameter, operandStack]

theorem mem_all (c : Convention) : c ∈ all := by cases c <;> decide

/-- The name in configuration documents, in logs and in reports. -/
def name : Convention → String
  | interpreter   => "interpreter"
  | direct        => "direct"
  | passParameter => "passparameter"
  | operandStack  => "operandstack"

/-- The name in the diagnostic text of a frame. -/
def label : Convention → String
  | interpreter   => "Interpreter"
  | direct        => "Direct"
  | passParameter => "PassParameter"
  | operandStack  => "OperandStack"

/-- Every spelling a document may use for the convention. -/
def spellings : Convention → List String
  | passParameter => ["passparameter", "passParameter"]
  | operandStack  => ["operandstack", "operandStack"]
  | c             => [c.name]

/-- A callee that has a native entry is entered through it. -/
def usesNative : Convention → Bool
  | interpreter => false
  | _           => true

/-- A native callee finds its arguments in registers. -/
def passesInRegisters : Convention → Bool
  | passParameter | operandStack => true
  | _                            => false

/-- The operand stack holds the arguments of every call for as long as it runs. -/
def keepsStack : Convention → Bool
  | passParameter => false
  | _             => true

/-- Two texts equal up to the case of ASCII letters. -/
def sameLetters (s t : List Char) : Bool := s.map Char.toLower == t.map Char.toLower

/-- The convention named by a text; the error carries the text without the blanks around it. -/
def ofText (text : String) : Except ConfigError Convention :=
  let word := Text.trim text.toList
  match all.find? fun c => sameLetters c.name.toList word with
  | some c => .ok c
  | none   => .error (.unknownConvention (String.ofList word))

theorem ofText_name (c : Convention) : ofText c.name = .ok c := by cases c <;> rfl

end Convention
end MixedMode
