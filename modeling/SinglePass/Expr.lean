import SinglePass.Token

/-!
# Expression trees

The trees that token lists spell.  A tree keeps its literal tokens and the names that occur in it; delimiters and
blanks leave no trace, so `lexemes` gives what is essential of a token list, and a token list spells a tree if the
two have the same lexemes.
-/

namespace SinglePass

/-- What a token means to an expression. -/
inductive Lexeme where
  | literal (t : Token)
  | name (s : String)
  | openParen
  | closeParen
  | openBracket
  | closeBracket
deriving DecidableEq, Repr

/-- The lexeme of a token; blanks have none. -/
def Token.lexeme? (t : Token) : Option Lexeme :=
  match t.kind with
  | .string | .int | .float | .bool => some (.literal t)
  | .identifier => some (.name t.text)
  | .openParen => some .openParen
  | .closeParen => some .closeParen
  | .openBracket => some .openBracket
  | .closeBracket => some .closeBracket
  | .whitespace => none

/-- A literal, or an array of literals and arrays. -/
inductive Datum where
  | literal (t : Token)
  | array (items : List Datum)
deriving Repr

inductive Expr where
  | datum (d : Datum)
  | name (s : String)
  /-- A callee and its arguments. -/
  | form (callee : String) (args : List Expr)
  /-- The binding form with the name that it binds; the first argument is the value and the second the body. -/
  | binding (bound : String) (args : List Expr)
deriving Repr

mutual

def Datum.lexemes : Datum → List Lexeme
  | .literal t => [.literal t]
  | .array items => .openBracket :: Datum.lexemesAll items ++ [.closeBracket]

def Datum.lexemesAll : List Datum → List Lexeme
  | [] => []
  | d :: rest => d.lexemes ++ Datum.lexemesAll rest

end

mutual

def Expr.lexemes : Expr → List Lexeme
  | .datum d => d.lexemes
  | .name s => [.name s]
  | .form callee args => .openParen :: .name callee :: Expr.lexemesAll args ++ [.closeParen]
  | .binding bound args => .openParen :: .name "def" :: .name bound :: Expr.lexemesAll args ++ [.closeParen]

def Expr.lexemesAll : List Expr → List Lexeme
  | [] => []
  | e :: rest => e.lexemes ++ Expr.lexemesAll rest

end

/-- The token list spells the tree. -/
def Spells (ts : List Token) (e : Expr) : Prop := ts.filterMap Token.lexeme? = e.lexemes

instance (ts : List Token) (e : Expr) : Decidable (Spells ts e) :=
  inferInstanceAs (Decidable (ts.filterMap Token.lexeme? = e.lexemes))

end SinglePass
