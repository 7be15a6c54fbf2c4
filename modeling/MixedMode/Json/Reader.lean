import MixedMode.Json.Lexer
/-!
# Finding the value of a list of tokens

The reader takes the tokens one by one and keeps the containers that are open, innermost first.  It never recurses
into a value, so no depth of nesting is too much for it.
-/
namespace MixedMode.Json

/-- A container that is open around the value being read; what it holds so far is kept newest first. -/
inductive Outer where
  | array (items : List Json)
  | object (members : List (List Char × Json)) (key : List Char)
  deriving Inhabited

/-- What the reader has read, and with it what may come next. -/
inductive Reader where
  /-- A value has to come; right after an opening bracket (`first`) the array may also end. -/
  | value (first : Bool) (outer : List Outer)
  /-- A key has to come; right after an opening brace (`first`) the object may also end. -/
  | key (first : Bool) (members : List (List Char × Json)) (outer : List Outer)
  | colon (members : List (List Char × Json)) (key : List Char) (outer : List Outer)
  | afterItem (items : List Json) (outer : List Outer)
  | afterMember (members : List (List Char × Json)) (outer : List Outer)
  | whole (value : Json)
  deriving Inhabited

namespace Reader

/-- A value is complete. -/
def place (v : Json) : List Outer → Reader
  | []                         => whole v
  | .array items :: outer      => afterItem (v :: items) outer
  | .object members k :: outer => afterMember ((k, v) :: members) outer

def step : Reader → Token → Option Reader
  | value _ outer, .null                        => some (place .null outer)
  | value _ outer, .bool b                      => some (place (.bool b) outer)
  | value _ outer, .number lexeme               => some (place (.number lexeme) outer)
  | value _ outer, .text raw                    => some (place (.text raw) outer)
  | value _ outer, .openBracket                 => some (value true (.array [] :: outer))
  | value _ outer, .openBrace                   => some (key true [] outer)
  | value true (.array [] :: outer), .closeBracket => some (place (.array []) outer)
  | key _ members outer, .text k                => some (colon members k outer)
  | key true [] outer, .closeBrace              => some (place (.object []) outer)
  | colon members k outer, .colon               => some (value false (.object members k :: outer))
  | afterItem items outer, .comma               => some (value false (.array items :: outer))
  | afterItem items outer, .closeBracket        => some (place (.array items.reverse) outer)
  | afterMember members outer, .comma           => some (key false members outer)
  | afterMember members outer, .closeBrace      => some (place (.object members.reverse) outer)
  | _, _                                        => none

def finish : Reader → Option Json
  | whole v => some v
  | _       => none

end Reader

/-- The value that a list of tokens spells. -/
def ofTokens? (tokens : List Token) : Option Json :=
  (tokens.foldlM Reader.step (.value false [])).bind Reader.finish

/-- The value that a text spells. -/
def parse? (text : String) : Option Json := (lex? text.toList).bind ofTokens?

end MixedMode.Json
