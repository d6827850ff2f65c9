import SinglePass.Error
import SinglePass.Token.Json

/-!
# Configuration

The one setting is the greatest number of parentheses and brackets that may be open at the same time.  As JSON a
configuration is an object whose only possible member is `max_depth`, or an array of at most that number.  What is left
out has its default value.

What a reader of JSON says about a text that is no configuration is not described here: it is given as a function from
texts to complaints, which the error passes on.
-/

namespace SinglePass

structure Config where
  limit : UInt64 := 512
deriving DecidableEq, Repr

namespace Config

def toJson (c : Config) : Json := .object [("max_depth", .number (.ofInt c.limit.toNat))]

def ofJson? : Json → Option Config
  | .object [] | .array [] => some {}
  | .object [(key, limit)] => if key = "max_depth" then limit.uint64?.map fun n => { limit := n } else none
  | .array [limit] => limit.uint64?.map fun n => { limit := n }
  | _ => none

/-- The compact JSON text of a configuration. -/
def json (c : Config) : String := c.toJson.text

/-- The configuration that a JSON text describes, if it describes one. -/
def ofText? (text : String) : Option Config := (Json.parse? text).bind ofJson?

def parseJson (complaint : String → String) (text : String) : Except Error Config :=
  match ofText? text with
  | some c => .ok c
  | none => .error (.invalidConfig (complaint text))

end Config

end SinglePass
