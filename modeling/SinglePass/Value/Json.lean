import SinglePass.Json.Reader
import SinglePass.Json.Writer
import SinglePass.Value

/-!
# Values in JSON

A value is written as an object with its kind and its content, in this order.  When it is read, the two may come in
any order and other members are skipped, and an array of the kind and the content will do as well.  Documents are
read down to a nesting of `maxNesting`, not counting what is skipped.  Content that comes before its kind is taken
in whole at first, so everything in it has to be readable, skipped members included.
-/

namespace SinglePass

namespace Json

/-- The greatest number of arrays and objects around anything that is read. -/
def maxNesting : Nat := 127

/-- A name, written as a string or as an object from the name to null. -/
def name? (room : Nat) (loose : Bool) : Json → Option String
  | string s => some s
  | object [(s, null)] => if room = 0 then none else some s
  | object [(s, object [])] => if loose then some s else none
  | _ => none

/-- Nothing in the document is unreadable, out of range or nested too deeply. -/
def readable : Nat → Json → Bool
  | _, null | _, bool _ | _, string _ => true
  | _, unreadable => false
  | _, number n => n.binary64?.isSome
  | 0, _ => false
  | room + 1, array items => items.all (readable room)
  | room + 1, object members => members.all fun m => readable room m.2

end Json

namespace Value

mutual

def toJson : Value → Json
  | int n => entry .int (.number (.ofInt n.toInt))
  | float x => entry .float (((Json.Number.ofBinary64? x).map Json.number).getD .null)
  | str s => entry .str (.string s)
  | bool b => entry .bool (.bool b)
  | array items => entry .array (.array (toJsonItems items))
where
  /-- An object of a kind and a content. -/
  entry (k : Kind) (content : Json) : Json :=
    .object [("kind", .string k.tag), ("value", content)]

def toJsonItems : List Value → List Json
  | [] => []
  | v :: rest => toJson v :: toJsonItems rest

end

/-- The kind and the content of a value, and whether the content was taken in before the kind was known. -/
def entry? (room : Nat) (loose : Bool) : Json → Option (Kind × Json × Bool)
  | .object members => do
    let k ← (Json.name? room loose (← Json.only "kind" members)).bind Kind.ofTag?
    let content ← Json.only "value" members
    if members.find? (fun m => m.1 == "kind" || m.1 == "value") |>.any (·.1 == "kind") then
      return (k, content, loose)
    else if Json.readable room content then return (k, content, true)
    else none
  | .array [k, content] => do
    return (← (Json.name? room loose k).bind Kind.ofTag?, content, loose)
  | _ => none

/-- The value of a kind other than array. -/
def scalar? : Kind → Json → Option Value
  | .int, .number n => (n.int?.bind int64?).map int
  | .float, .number n => n.binary64?.map float
  | .str, .string s => some (str s)
  | .bool, .bool b => some (bool b)
  | _, _ => none

/-- Reads a value with so much room for nesting.  An array takes two levels, one for its items and one for the object
around them. -/
def ofJsonWithin? : Nat → Bool → Json → Option Value
  | 0, _, _ => none
  | 1, loose, j => do
    let (k, content, _) ← entry? 0 loose j
    scalar? k content
  | inner + 2, loose, j => do
    let (k, content, loose) ← entry? (inner + 1) loose j
    match k, content with
    | .array, .array items => (items.mapM (ofJsonWithin? inner loose)).map array
    | _, _ => scalar? k content

def ofJson? (j : Json) : Option Value := ofJsonWithin? Json.maxNesting false j

/-- The compact JSON text of a value. -/
def json (v : Value) : String := v.toJson.text

def parseJson? (s : String) : Option Value := (Json.parse? s).bind ofJson?

end Value

end SinglePass
