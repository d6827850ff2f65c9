import SinglePass.Token
import SinglePass.Value.Json

/-!
# Tokens in JSON

A token is written as an object with its kind, its text and its offset.  The members may come in any order and
others are skipped; an array of the three will do as well.
-/

namespace SinglePass

namespace Json

/-- A natural number below `2 ^ 64`. -/
def uint64? : Json → Option UInt64
  | number n =>
    match n.int? with
    | some (.ofNat k) => if k < UInt64.size then some (UInt64.ofNat k) else none
    | _ => none
  | _ => none

def string? : Json → Option String
  | string s => some s
  | _ => none

end Json

namespace Token

def toJson (t : Token) : Json :=
  .object [("kind", .string t.kind.tag), ("text", .string t.text), ("offset", .number (.ofInt t.offset))]

def ofParts? (kind text offset : Json) : Option Token := do
  let kind ← (Json.name? Json.maxNesting false kind).bind Kind.ofTag?
  let text ← text.string?
  let offset ← offset.uint64?
  return ⟨kind, text, offset.toNat⟩

def ofJson? : Json → Option Token
  | .object members => do
    ofParts? (← Json.only "kind" members) (← Json.only "text" members) (← Json.only "offset" members)
  | .array [kind, text, offset] => ofParts? kind text offset
  | _ => none

/-- The compact JSON text of a token. -/
def json (t : Token) : String := t.toJson.text

def parseJson? (s : String) : Option Token := (Json.parse? s).bind ofJson?

end Token

end SinglePass
