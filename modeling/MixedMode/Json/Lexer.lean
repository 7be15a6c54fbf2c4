import MixedMode.Json.Basic
/-!
# Finding the tokens of a text

The lexer reads the text once, a character at a time.  It stands between two tokens or inside one; a number ends at
the first character that cannot go on it, every other token ends with its own last character.  A text inside quotes
is checked as far as its escapes go; whether they pair up is a question for its reader.
-/
namespace MixedMode.Json

/-- White space that may stand between two tokens. -/
def isSpace (c : Char) : Bool := c = ' ' || c = '\n' || c = '\t' || c = '\r'

def isHexDigit (c : Char) : Bool :=
  ('0' ≤ c && c ≤ '9') || ('a' ≤ c && c ≤ 'f') || ('A' ≤ c && c ≤ 'F')

/-- How far a number has been read. -/
inductive NumberStage where
  | minus
  | zero
  | whole
  | point
  | fraction
  | mark
  | sign
  | power
  deriving DecidableEq, Repr

namespace NumberStage

/-- May the number end here? -/
def complete : NumberStage → Bool
  | zero | whole | fraction | power => true
  | _                               => false

/-- The stage after one more character, if the number can go on with it. -/
def next? : NumberStage → Char → Option NumberStage
  | minus, c    => if c = '0' then some zero else if c.isDigit then some whole else none
  | zero, c     => if c = '.' then some point else if c = 'e' || c = 'E' then some mark else none
  | whole, c    =>
    if c.isDigit then some whole else if c = '.' then some point else if c = 'e' || c = 'E' then some mark else none
  | point, c    => if c.isDigit then some fraction else none
  | fraction, c => if c.isDigit then some fraction else if c = 'e' || c = 'E' then some mark else none
  | mark, c     => if c = '+' || c = '-' then some sign else if c.isDigit then some power else none
  | sign, c     => if c.isDigit then some power else none
  | power, c    => if c.isDigit then some power else none

end NumberStage

/-- How far a character of a text has been read: not begun, after a backslash, or with so many digits missing. -/
inductive TextStage where
  | plain
  | escape
  | digits (missing : Nat)
  deriving DecidableEq, Repr

namespace TextStage

/-- The stage after one more character other than the closing quote, if the text can go on with it. -/
def next? : TextStage → Char → Option TextStage
  | plain, c =>
    if c = '\\' then some escape else if c.toNat < 0x20 then none else some plain
  | escape, c =>
    if c = 'u' then some (digits 4)
    else if c = '"' || c = '\\' || c = '/' || c = 'b' || c = 'f' || c = 'n' || c = 'r' || c = 't' then some plain
    else none
  | digits missing, c =>
    if isHexDigit c then some (if missing ≤ 1 then plain else digits (missing - 1)) else none

end TextStage

/-- Where the lexer stands; what has been read of a token is kept newest first. -/
inductive Scan where
  | between
  | word (missing : List Char) (token : Token)
  | number (stage : NumberStage) (lexeme : List Char)
  | text (stage : TextStage) (raw : List Char)
  deriving DecidableEq, Repr

/-- The lexer: where it stands and the tokens before that, newest first. -/
structure Lexer where
  scan : Scan
  done : List Token
  deriving DecidableEq, Repr

namespace Lexer

def start (done : List Token) (c : Char) : Option Lexer :=
  if isSpace c then some ⟨.between, done⟩
  else if c = '[' then some ⟨.between, .openBracket :: done⟩
  else if c = ']' then some ⟨.between, .closeBracket :: done⟩
  else if c = '\x7b' then some ⟨.between, .openBrace :: done⟩
  else if c = '\x7d' then some ⟨.between, .closeBrace :: done⟩
  else if c = ',' then some ⟨.between, .comma :: done⟩
  else if c = ':' then some ⟨.between, .colon :: done⟩
  else if c = 'n' then some ⟨.word ['u', 'l', 'l'] .null, done⟩
  else if c = 't' then some ⟨.word ['r', 'u', 'e'] (.bool true), done⟩
  else if c = 'f' then some ⟨.word ['a', 'l', 's', 'e'] (.bool false), done⟩
  else if c = '"' then some ⟨.text .plain [], done⟩
  else if c = '-' then some ⟨.number .minus [c], done⟩
  else if c = '0' then some ⟨.number .zero [c], done⟩
  else if c.isDigit then some ⟨.number .whole [c], done⟩
  else none

def step : Lexer → Char → Option Lexer
  | ⟨.between, done⟩, c           => start done c
  | ⟨.word [] _, _⟩, _            => none
  | ⟨.word [r] token, done⟩, c    => if c = r then some ⟨.between, token :: done⟩ else none
  | ⟨.word (r :: rs) token, done⟩, c => if c = r then some ⟨.word rs token, done⟩ else none
  | ⟨.number stage lexeme, done⟩, c =>
    match stage.next? c with
    | some stage => some ⟨.number stage (c :: lexeme), done⟩
    | none       => if stage.complete then start (.number lexeme.reverse :: done) c else none
  | ⟨.text stage raw, done⟩, c =>
    if c = '"' && stage = .plain then some ⟨.between, .text raw.reverse :: done⟩
    else (stage.next? c).map fun stage => ⟨.text stage (c :: raw), done⟩

def finish : Lexer → Option (List Token)
  | ⟨.between, done⟩             => some done.reverse
  | ⟨.number stage lexeme, done⟩ =>
    if stage.complete then some (.number lexeme.reverse :: done).reverse else none
  | _                            => none

end Lexer

/-- The tokens of a text, if it consists of tokens and white space. -/
def lex? (text : List Char) : Option (List Token) :=
  (text.foldlM Lexer.step ⟨.between, []⟩).bind Lexer.finish

end MixedMode.Json
