/-!
# JSON documents — values, tokens, and the compact text

A document is a tree.  Texts and numbers are kept as they are written: `Text.decode` and `natural?` say what they
mean.  The tokens of a tree are unique (`Json.tokens`), and the compact text is the tokens one after the other, so
reading splits into finding the tokens and finding the tree.
-/
namespace MixedMode

/-- A JSON value; the characters of a text are those between its quotes. -/
inductive Json where
  | null
  | bool (value : Bool)
  | number (lexeme : List Char)
  | text (raw : List Char)
  | array (items : List Json)
  | object (members : List (List Char × Json))
  deriving Inhabited

namespace Json

inductive Token where
  | openBracket
  | closeBracket
  | openBrace
  | closeBrace
  | comma
  | colon
  | null
  | bool (value : Bool)
  | number (lexeme : List Char)
  | text (raw : List Char)
  deriving DecidableEq, Repr, Inhabited

namespace Token

def chars : Token → List Char
  | openBracket   => ['[']
  | closeBracket  => [']']
  | openBrace     => ['\x7b']
  | closeBrace    => ['\x7d']
  | comma         => [',']
  | colon         => [':']
  | null          => "null".toList
  | bool true     => "true".toList
  | bool false    => "false".toList
  | number lexeme => lexeme
  | text raw      => '"' :: raw ++ ['"']

end Token

mutual

def tokens : Json → List Token
  | null           => [.null]
  | bool b         => [.bool b]
  | number lexeme  => [.number lexeme]
  | text raw       => [.text raw]
  | array items    => .openBracket :: itemTokens items ++ [.closeBracket]
  | object members => .openBrace :: memberTokens members ++ [.closeBrace]

/-- The tokens of the items of an array, with a comma between two. -/
def itemTokens : List Json → List Token
  | []           => []
  | [v]          => v.tokens
  | v :: w :: vs => v.tokens ++ .comma :: itemTokens (w :: vs)

/-- The tokens of the members of an object, with a comma between two. -/
def memberTokens : List (List Char × Json) → List Token
  | []                => []
  | [(k, v)]          => .text k :: .colon :: v.tokens
  | (k, v) :: m :: ms => .text k :: .colon :: v.tokens ++ .comma :: memberTokens (m :: ms)

end

/-- The text of a value without any white space. -/
def compact (v : Json) : String := String.ofList (v.tokens.flatMap Token.chars)

end Json
end MixedMode
