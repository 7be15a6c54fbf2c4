import MixedMode.Json.Lexer
/-!
# The characters of a JSON text

`encode` writes a text between quotes: a quote, a backslash and the control characters are escaped and all else
stands as it is.  `decode?` reads any spelling of a text; an escape above U+FFFF is a pair of surrogates, and a
surrogate without its partner is refused.
-/
namespace MixedMode.Json.Text

/-- A lower-case hexadecimal digit. -/
def hexDigit (n : Nat) : Char := Nat.digitChar n

def hexValue (c : Char) : Nat :=
  if c ≤ '9' then c.toNat - '0'.toNat else if c ≤ 'F' then c.toNat - 'A'.toNat + 10 else c.toNat - 'a'.toNat + 10

def encodeChar (c : Char) : List Char :=
  if c = '"' then ['\\', '"']
  else if c = '\\' then ['\\', '\\']
  else if c = '\n' then ['\\', 'n']
  else if c = '\r' then ['\\', 'r']
  else if c = '\t' then ['\\', 't']
  else if c.toNat = 0x8 then ['\\', 'b']
  else if c.toNat = 0xC then ['\\', 'f']
  else if c.toNat < 0x20 then ['\\', 'u', '0', '0', hexDigit (c.toNat / 16), hexDigit (c.toNat % 16)]
  else [c]

def encode (cs : List Char) : List Char := cs.flatMap encodeChar

/-- A piece of a text: a character, or a 16-bit unit given by its number. -/
inductive Piece where
  | char (c : Char)
  | unit (n : Nat)
  deriving DecidableEq, Repr

/-- The character after a backslash, other than `u`. -/
def unescape (c : Char) : Option Char :=
  if c = '"' || c = '\\' || c = '/' then some c
  else if c = 'b' then some '\x08'
  else if c = 'f' then some '\x0c'
  else if c = 'n' then some '\n'
  else if c = 'r' then some '\r'
  else if c = 't' then some '\t'
  else none

/-- The pieces of a text, if its escapes are complete. -/
def pieces? : List Char → Option (List Piece)
  | [] => some []
  | '\\' :: 'u' :: a :: b :: c :: d :: rest =>
    if [a, b, c, d].all isHexDigit then
      (pieces? rest).map (.unit ([a, b, c, d].foldl (fun n h => 16 * n + hexValue h) 0) :: ·)
    else none
  | '\\' :: e :: rest =>
    match unescape e, pieces? rest with
    | some c, some ps => some (.char c :: ps)
    | _, _            => none
  | c :: rest => if c = '\\' then none else (pieces? rest).map (.char c :: ·)

def isHighSurrogate (n : Nat) : Bool := 0xD800 ≤ n && n < 0xDC00

def isLowSurrogate (n : Nat) : Bool := 0xDC00 ≤ n && n < 0xE000

/-- The characters of the pieces, if every surrogate has its partner. -/
def join? : List Piece → Option (List Char)
  | []            => some []
  | .char c :: ps => (join? ps).map (c :: ·)
  | .unit h :: .unit l :: ps =>
    if isHighSurrogate h then
      if isLowSurrogate l then
        (join? ps).map (Char.ofNat (0x10000 + (h - 0xD800) * 0x400 + (l - 0xDC00)) :: ·)
      else none
    else if isLowSurrogate h then none
    else (join? (.unit l :: ps)).map (Char.ofNat h :: ·)
  | .unit n :: ps =>
    if isHighSurrogate n || isLowSurrogate n then none else (join? ps).map (Char.ofNat n :: ·)

/-- The characters of a text, if it has any. -/
def decode? (raw : List Char) : Option (List Char) := (pieces? raw).bind join?

end MixedMode.Json.Text
