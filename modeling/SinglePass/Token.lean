/-!
# Tokens

A token is a piece of the source with its kind and the byte at which it starts.  Tokens need not come from a
source: any kind may be paired with any text.
-/

namespace SinglePass

inductive Token.Kind where
  | string
  | int
  | float
  | bool
  | openParen
  | closeParen
  | openBracket
  | closeBracket
  | identifier
  | whitespace
deriving DecidableEq, Repr

structure Token where
  kind : Token.Kind
  text : String
  /-- The byte of the source at which the token starts. -/
  offset : Nat
deriving DecidableEq, Repr

namespace Token.Kind

/-- The name of a kind in messages. -/
def name : Kind → String
  | string => "string"
  | int => "int"
  | float => "float"
  | bool => "bool"
  | openParen => "openParen"
  | closeParen => "closeParen"
  | openBracket => "openBracket"
  | closeBracket => "closeBracket"
  | identifier => "identifier"
  | whitespace => "whitespace"

/-- The name of a kind in JSON. -/
def tag : Kind → String
  | string => "String"
  | int => "Int"
  | float => "Float"
  | bool => "Bool"
  | openParen => "OpenParen"
  | closeParen => "CloseParen"
  | openBracket => "OpenBracket"
  | closeBracket => "CloseBracket"
  | identifier => "Identifier"
  | whitespace => "Whitespace"

def all : List Kind :=
  [string, int, float, bool, openParen, closeParen, openBracket, closeBracket, identifier, whitespace]

def ofTag? (s : String) : Option Kind := all.find? fun k => k.tag == s

/-- Tokens of these kinds denote values by themselves. -/
def isLiteral : Kind → Bool
  | string | int | float | bool => true
  | _ => false

end Token.Kind

namespace Token

/-- The byte just after the token. -/
def stop (t : Token) : Nat := t.offset + t.text.utf8ByteSize

def isBlank (t : Token) : Bool := t.kind == .whitespace

/-- The tokens that matter to evaluation. -/
def nonBlank (ts : List Token) : List Token := ts.filter fun t => !t.isBlank

end Token

end SinglePass
