import MixedMode.Json.Reader
import MixedMode.Json.Text
/-!
# Records — values with named fields

A record is written as an object, with its fields in any order and other members among them, or as an array of its
first fields in their order.  A field that is not given has its default; a known field that is given twice is refused,
and so is an array with more items than there are fields.
-/
namespace MixedMode.Json

def ofString (s : String) : Json := .text (Text.encode s.toList)

def ofNat (n : Nat) : Json := .number (Nat.toDigits 10 n)

def ofOption {α : Type} (f : α → Json) : Option α → Json
  | some a => f a
  | none   => .null

/-- An object with these members. -/
def ofFields (fields : List (String × Json)) : Json :=
  .object (fields.map fun (name, v) => (Text.encode name.toList, v))

def string? : Json → Option String
  | .text raw => (Text.decode? raw).map String.ofList
  | _         => none

def bool? : Json → Option Bool
  | .bool b => some b
  | _       => none

/-- A number written with digits only: no sign, fraction or exponent. -/
def natural? : Json → Option Nat
  | .number lexeme => if lexeme.all Char.isDigit then some (Nat.ofDigitChars 10 lexeme 0) else none
  | _              => none

def uint64? (v : Json) : Option UInt64 :=
  match v.natural? with
  | some n => if h : n < UInt64.size then some (UInt64.ofNatLT n h) else none
  | none   => none

def uint32? (v : Json) : Option UInt32 :=
  match v.natural? with
  | some n => if h : n < UInt32.size then some (UInt32.ofNatLT n h) else none
  | none   => none

/-- A value that may be absent, which is written `null`. -/
def option? {α : Type} (f : Json → Option α) : Json → Option (Option α)
  | .null => some none
  | v     => (f v).map some

/-- The fields that a value gives, of those with the listed names. -/
abbrev Given := List (String × Json)

/-- The members of an object with their names decoded. -/
def named? (members : List (List Char × Json)) : Option Given :=
  members.mapM fun (key, v) => (Text.decode? key).map fun name => (String.ofList name, v)

/-- The fields that a value gives: no name twice, and none that is not listed. -/
def fields? (names : List String) : Json → Option Given
  | .object members =>
    match named? members with
    | some ms =>
      let known := ms.filter fun (name, _) => names.contains name
      if (known.map Prod.fst).Nodup then some known else none
    | none => none
  | .array items => if items.length ≤ names.length then some (names.zip items) else none
  | _            => none

/-- The value of a field: its default when it is not given. -/
def Given.get? {α : Type} (given : Given) (name : String) (read : Json → Option α) (default : α) : Option α :=
  match given.lookup name with
  | some v => read v
  | none   => some default

end MixedMode.Json
