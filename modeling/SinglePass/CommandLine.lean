import SinglePass.Interpreter

/-!
# The command line

The arguments are read from left to right.  `--json` asks for JSON output, `--config` takes the argument behind it
as the path of a configuration, and any other argument is the expression; the last one of each counts.  The first
configuration that cannot be used ends the run, with a report that passes on what the system or the reader of JSON said.
-/

namespace SinglePass.CommandLine

structure Outcome where
  exit : Nat
  stdout : String
  stderr : String
deriving DecidableEq, Repr

structure Options where
  json : Bool := false
  config : Config := {}
  source : Option String := none

/-- What the program is told from outside: the text of a file or the reason why it cannot be read, and what the reader
of JSON has to say about a text that is no configuration. -/
structure Surroundings where
  file : String → Except String String
  complaint : String → String

inductive Failure where
  /-- `--config` is the last argument. -/
  | missingPath
  | unreadable (path reason : String)
  | invalidConfig (error : Error)
deriving DecidableEq, Repr

def Failure.report : Failure → String
  | missingPath => "Error: --config needs a file path\n"
  | unreadable path reason => "Error: reading config file '" ++ path ++ "'\n\nCaused by:\n    " ++ reason ++ "\n"
  | invalidConfig error => "Error: " ++ error.message ++ "\n"

def usage : String :=
  "Usage: cargo run --example run_expr [--json] [--config <config.json>] '<expression>'\n"
    ++ "\nExample expressions:\n"
    ++ "  (plus 1 (plus 2 3))\n"
    ++ "  (def a \"hello \" (def b \"world!\" (concat a b)))\n"

/-- The configuration in a file. -/
def loadConfig (w : Surroundings) (path : String) : Except Failure Config :=
  match w.file path with
  | .error reason => .error (.unreadable path reason)
  | .ok text =>
    match Config.parseJson w.complaint text with
    | .ok c => .ok c
    | .error e => .error (.invalidConfig e)

def readOptions (w : Surroundings) (o : Options) : List String → Except Failure Options
  | [] => .ok o
  | arg :: rest =>
    if arg = "--json" then readOptions w { o with json := true } rest
    else if arg = "--config" then
      match rest with
      | [] => .error .missingPath
      | path :: rest =>
        match loadConfig w path with
        | .ok c => readOptions w { o with config := c } rest
        | .error e => .error e
    else readOptions w { o with source := some arg } rest

/-- The paths that the arguments ask to read. -/
def paths : List String → List String
  | [] => []
  | arg :: rest =>
    if arg = "--config" then
      match rest with
      | [] => []
      | path :: rest => path :: paths rest
    else paths rest

/-- Evaluates an expression and prints its value. -/
def evaluate (o : Options) (source : String) : Outcome :=
  match ({ config := o.config } : Interpreter).evaluate source with
  | .ok v => ⟨0, (if o.json then v.json else v.display) ++ "\n", ""⟩
  | .error e => ⟨1, "", e.category.name ++ ": " ++ e.message ++ "\n"⟩

def run (w : Surroundings) (args : List String) : Outcome :=
  match readOptions w {} args with
  | .error e => ⟨1, "", e.report⟩
  | .ok o =>
    match o.source with
    | none => ⟨2, "", usage⟩
    | some source => evaluate o source

end SinglePass.CommandLine
