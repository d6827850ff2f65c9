import SinglePass.Token
import SinglePass.Value

/-!
# Errors

Every cause for which lexing, evaluation, registration or configuration can fail, with the category it is reported
under and the text of its message.
-/

namespace SinglePass

inductive Error where
  /-- No rule covers this character of the source. -/
  | uncovered (offset : Nat) (character : Char)
  /-- The pattern of a rule cannot be understood, for the reason given. -/
  | badRule (kind : Token.Kind) (reason : String)
  /-- A numeric token denotes no value. -/
  | badNumber (offset : Nat) (text : String)
  /-- Parentheses were left open, or a closing one had no partner (depth -1). -/
  | unbalanced (depth : Int)
  | callInArray
  | nameInArray (offset : Nat)
  | openArray
  | strayBracket (offset : Nat)
  /-- An opening parenthesis is followed by something other than a name. -/
  | noCallee (offset : Nat)
  /-- A binding form is given something other than a name to bind. -/
  | noBinder (offset : Nat)
  | noExpression
  | manyExpressions (count : Nat)
  | unknownCallee (name : String)
  | unbound (name : String)
  | overflow (name : String)
  | tooDeep (limit : Nat)
  | noOverload (name : String) (got : List Kind)
  | badCast (target : Kind) (text : String)
  | notBoolean (got : Kind)
  | tooFew (name : String) (expected got : Nat)
  | tooMany (name : String) (expected got : Nat)
  | duplicate (name : String) (params : List Kind)
  /-- A text is no configuration, for the reason given. -/
  | invalidConfig (reason : String)
deriving DecidableEq, Repr

namespace Error

inductive Category where
  | lex
  | parse
  | eval
  | type
  | arity
  | registry
  | config
deriving DecidableEq, Repr

def Category.name : Category → String
  | lex => "LexError"
  | parse => "ParseError"
  | eval => "EvalError"
  | type => "TypeError"
  | arity => "ArityError"
  | registry => "RegistryError"
  | config => "ConfigError"

def category : Error → Category
  | uncovered .. | badRule .. | badNumber .. => .lex
  | unbalanced .. | callInArray | nameInArray .. | openArray | strayBracket ..
  | noCallee .. | noBinder .. | noExpression | manyExpressions .. => .parse
  | unknownCallee .. | unbound .. | overflow .. | tooDeep .. => .eval
  | noOverload .. | badCast .. | notBoolean .. => .type
  | tooFew .. | tooMany .. => .arity
  | duplicate .. => .registry
  | invalidConfig .. => .config

def message : Error → String
  | uncovered offset character =>
    s!"Unrecognized character '{character}' at offset {offset}"
  | badRule kind reason => "Invalid " ++ kind.name ++ " rule: " ++ reason
  | badNumber offset text => s!"Invalid number literal '{text}' at offset {offset}"
  | unbalanced depth => s!"Parenthesis mismatch, depth: {depth}, expected: 0"
  | callInArray => "Array literals may only contain literal values, found a nested call"
  | nameInArray offset =>
    s!"Array literals may only contain literal values, found an identifier at offset {offset}"
  | openArray => "Unclosed array literal"
  | strayBracket offset => s!"Unmatched ']' at offset {offset}"
  | noCallee offset => s!"Expected a function name after '(' at offset {offset}"
  | noBinder offset => s!"Expected a binding name at offset {offset}"
  | noExpression => "Empty expression"
  | manyExpressions count => s!"Expected a single expression, found {count}"
  | unknownCallee name => s!"{name} is not a valid function"
  | unbound name => s!"Unbound name: {name}"
  | overflow name => s!"Integer overflow in {name}"
  | tooDeep limit => s!"Nesting depth limit exceeded (max: {limit})"
  | noOverload name got => "No overload of " ++ name ++ " accepts (" ++ Kind.names got ++ ")"
  | badCast target text => "Cannot cast \"" ++ text ++ "\" to " ++ target.name
  | notBoolean got => "Condition of if must be a bool, got " ++ got.name
  | tooFew name expected got => s!"{name} expects {expected} arguments, but only got {got}"
  | tooMany name expected got => s!"{name} expects {expected} arguments, but got {got}"
  | duplicate name params => "Duplicate overload " ++ name ++ "(" ++ Kind.names params ++ ")"
  | invalidConfig reason => "Configuration error: " ++ reason

end Error

end SinglePass
