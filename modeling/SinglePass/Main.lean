import SinglePass.CommandLine

/-!
# The program

Reads the files that the arguments name, runs the command line on them and prints what it answers.
-/

open SinglePass

/-- The text of a file, or what the system says about why it cannot be read. -/
def readText (path : String) : IO (String × Except String String) := do
  try
    return (path, .ok (← IO.FS.readFile path))
  catch e =>
    return (path, .error (toString e))

def main (args : List String) : IO UInt32 := do
  let files ← (CommandLine.paths args).mapM readText
  let surroundings : CommandLine.Surroundings :=
    { file := fun path => (files.lookup path).getD (.error "not read")
      complaint := fun text => "not a configuration: " ++ text }
  let outcome := CommandLine.run surroundings args
  IO.print outcome.stdout
  IO.eprint outcome.stderr
  return UInt32.ofNat outcome.exit
