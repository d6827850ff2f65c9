import SinglePass.Builtin.Standard
import SinglePass.Config
import SinglePass.Lexer
import SinglePass.Machine

/-!
# The interpreter

An interpreter is a table of lexical rules, a registry of builtins and a configuration.  It keeps no state: every
evaluation starts with a fresh machine and an empty scope.
-/

namespace SinglePass

/-- The version of the language. -/
def version : String := "0.1.0"

structure Interpreter where
  rules : List Rule := Rule.standard
  registry : Registry := Standard.registry
  config : Config := {}

namespace Interpreter

def tokenize (i : Interpreter) (source : String) : Except Error (List Token) := Lexer.tokenize i.rules source

/-- Evaluates tokens, reporting events. -/
def traceTokens (i : Interpreter) (ts : List Token) : Traced Value := do
  let m ← Machine.run i.registry i.config.limit.toNat .start ts
  let v ← Traced.lift m.outcome
  Traced.emit (.ended v)
  return v

/-- Evaluates a source, reporting events. -/
def trace (i : Interpreter) (source : String) : Traced Value := do
  let ts ← Traced.lift (i.tokenize source)
  Traced.emit (.started source.utf8ByteSize ts.length)
  i.traceTokens ts

def runTokens (i : Interpreter) (ts : List Token) : Except Error Value := (i.traceTokens ts).result

def evaluate (i : Interpreter) (source : String) : Except Error Value := (i.trace source).result

end Interpreter

end SinglePass
