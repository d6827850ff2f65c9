import SinglePass.Error
import SinglePass.Lexer.Pattern

/-!
# Lexical rules

A rule gives its kind to every match of its pattern.  The standard table lists the rules of the language, the
strongest first.

Rules are made from written patterns.  How these are understood is not described here: it is given as a function
`compile` from texts to patterns, which may fail with a reason.
-/

namespace SinglePass

structure Rule where
  kind : Token.Kind
  pattern : Pattern

namespace Rule

def make (compile : String → Except String Pattern) (kind : Token.Kind) (pattern : String) : Except Error Rule :=
  match compile pattern with
  | .ok p => .ok ⟨kind, p⟩
  | .error reason => .error (.badRule kind reason)

/-- Makes the rules of a table one after another, up to the first error. -/
def makeAll (compile : String → Except String Pattern) (table : List (Token.Kind × String)) :
    Except Error (List Rule) :=
  table.mapM fun w => make compile w.1 w.2

/-- The matches of the rule as tokens, empty ones included. -/
def found (r : Rule) (source : List Char) : List Token :=
  (r.pattern.findIter 0 none false source).map fun m => ⟨r.kind, String.ofList m.2, m.1⟩

/-- The rules of the language as they are written.  Because `true` and `false` have to stand as words of their own, the
letters in `5true` and `true5` are left to the rule for names. -/
def standardTexts : List (Token.Kind × String) :=
  [(.string, "\"[^\"]*\""),
    (.float, "[0-9]+\\.[0-9]*|\\.[0-9]+"),
    (.int, "[0-9]+"),
    (.bool, "\\b(?:true|false)\\b"),
    (.identifier, "[a-zA-Z]+"),
    (.openParen, "\\("),
    (.closeParen, "\\)"),
    (.openBracket, "\\["),
    (.closeBracket, "\\]"),
    (.whitespace, "\\s+")]

/-- The rules of the language as they are meant. -/
def standard : List Rule :=
  [⟨.string, .quoted⟩,
    ⟨.float, .decimal⟩,
    ⟨.int, .run Char.isDigit⟩,
    ⟨.bool, .word ["true".toList, "false".toList]⟩,
    ⟨.identifier, .run Pattern.isLetter⟩,
    ⟨.openParen, .single (· == '(')⟩,
    ⟨.closeParen, .single (· == ')')⟩,
    ⟨.openBracket, .single (· == '[')⟩,
    ⟨.closeBracket, .single (· == ']')⟩,
    ⟨.whitespace, .run Text.isBlank⟩]

end Rule

end SinglePass
