import SinglePass.Binary64.Rounding
import SinglePass.Decimal
import SinglePass.Error

/-!
# The values of literal tokens

Integer tokens follow the same rule as the conversion of a string to an integer, and float tokens the rule of the
conversion to a double: the whole text has to be a numeral, and the number has to fit.
-/

namespace SinglePass

/-- An optional sign and digits, denoting a 64-bit integer. -/
def readInt? (s : String) : Option Int64 := (Decimal.integer? s.toList).bind int64?

/-- A signed decimal, rounded to the nearest double, which has to be finite. -/
def readFloat? (s : String) : Option Binary64 :=
  (Decimal.signed? s.toList).bind fun (negative, d) => Binary64.ofDecimal? negative d.coefficient d.exponent

namespace Token

/-- A text without the quotes around it, or as it is if it lacks one of them. -/
def unquote (cs : List Char) : List Char :=
  match cs with
  | '"' :: rest => if rest.getLast? = some '"' then rest.dropLast else cs
  | _ => cs

/-- The value that a literal token denotes; other tokens denote none. -/
def literal? (t : Token) : Option (Except Error Value) :=
  match t.kind with
  | .int =>
    some (match readInt? t.text with
      | some n => .ok (.int n)
      | none => .error (.badNumber t.offset t.text))
  | .float =>
    some (match readFloat? t.text with
      | some x => .ok (.float x)
      | none => .error (.badNumber t.offset t.text))
  | .bool => some (.ok (.bool (t.text == "true")))
  | .string => some (.ok (.str (String.ofList (unquote t.text.toList))))
  | _ => none

end Token

end SinglePass
