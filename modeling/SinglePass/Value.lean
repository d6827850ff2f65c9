import SinglePass.Decimal.Layout

/-!
# Values

The values of the language: 64-bit integers, doubles, strings, booleans and arrays of values, whose items may be of
different kinds.  Equality `==` compares doubles as numbers, so it is not reflexive: an array that holds a NaN
differs from itself.

The displayed form of a value is the form in which the language itself writes it, as far as it can: strings stand
between quotes with nothing escaped, and the items of an array stand between brackets with one blank between
neighbours.
-/

namespace SinglePass

inductive Value where
  | int (n : Int64)
  | float (x : Binary64)
  | str (s : String)
  | bool (b : Bool)
  | array (items : List Value)
deriving Repr

/-- The kind of a value, by which builtins choose among their overloads. -/
inductive Kind where
  | int
  | float
  | str
  | bool
  | array
deriving DecidableEq, Repr

namespace Kind

/-- The name of a kind in messages. -/
def name : Kind → String
  | int => "int"
  | float => "float"
  | str => "string"
  | bool => "bool"
  | array => "array"

/-- The name of a kind in JSON. -/
def tag : Kind → String
  | str => "str"
  | k => k.name

def all : List Kind := [int, float, str, bool, array]

def ofTag? (s : String) : Option Kind := all.find? fun k => k.tag == s

/-- The kinds in a list, as messages write them. -/
def names (ks : List Kind) : String := ", ".intercalate (ks.map name)

end Kind

namespace Value

def kind : Value → Kind
  | int _ => .int
  | float _ => .float
  | str _ => .str
  | bool _ => .bool
  | array _ => .array

def bool? : Value → Option Bool
  | bool b => some b
  | _ => none

def str? : Value → Option String
  | str s => some s
  | _ => none

mutual

def eq : Value → Value → Bool
  | int m, int n => m == n
  | float x, float y => x.numEq y
  | str s, str t => s == t
  | bool a, bool b => a == b
  | array as, array bs => eqItems as bs
  | _, _ => false

def eqItems : List Value → List Value → Bool
  | [], [] => true
  | a :: as, b :: bs => eq a b && eqItems as bs
  | _, _ => false

end

instance : BEq Value := ⟨eq⟩

mutual

def display : Value → String
  | int n => String.ofList (Decimal.ofInt n.toInt)
  | float x => String.ofList x.withPoint
  | str s => "\"" ++ s ++ "\""
  | bool b => if b then "true" else "false"
  | array items => "[" ++ displayItems items ++ "]"

def displayItems : List Value → String
  | [] => ""
  | [v] => display v
  | v :: rest => display v ++ " " ++ displayItems rest

end

end Value

/-- A 64-bit integer, if the number fits. -/
def int64? (n : Int) : Option Int64 :=
  if -9223372036854775808 ≤ n ∧ n ≤ 9223372036854775807 then some (Int64.ofInt n) else none

end SinglePass
