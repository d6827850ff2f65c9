/-!
# JSON documents

A document as a tree.  Numbers are kept as they are written, because their range depends on what they are read as.
A string with half of a surrogate pair, and an object with such a key, are well-formed but denote nothing; they are
`unreadable`, which is an error only where somebody needs the value.
-/

namespace SinglePass

/-- A number by its digits; an empty fraction is one that is not written. -/
structure Json.Number where
  negative : Bool
  whole : List Char
  fraction : List Char
  /-- A sign, set for minus, and digits. -/
  exponent : Option (Bool × List Char)
deriving DecidableEq, Repr

inductive Json where
  | null
  | bool (b : Bool)
  | number (n : Json.Number)
  | string (s : String)
  | array (items : List Json)
  | object (members : List (String × Json))
  | unreadable
deriving Repr

namespace Json

/-- The value of a key that occurs exactly once. -/
def only (key : String) (members : List (String × Json)) : Option Json :=
  match members.filter fun m => m.1 == key with
  | [(_, v)] => some v
  | _ => none

end Json

end SinglePass
