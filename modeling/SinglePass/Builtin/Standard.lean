import SinglePass.Decimal.Layout
import SinglePass.Registry
import SinglePass.Token.Literal

/-!
# The standard builtins

Four groups of builtins: arithmetic on integers and doubles, strings and lengths, comparison, and conversions.
Each implementation also answers arguments of other kinds than its parameters, with an error under its own name.
-/

namespace SinglePass.Standard

/-- The error of an implementation that is given arguments of the wrong kinds. -/
def reject (name : String) (args : List Value) : Except Error Value :=
  .error (.noOverload name (args.map Value.kind))

/-- An exact integer result, which has to fit. -/
def fitting (name : String) (n : Int) : Except Error Value :=
  match int64? n with
  | some m => .ok (.int m)
  | none => .error (.overflow name)

/-! ### Arithmetic -/

def addInts : List Value → Except Error Value
  | [.int a, .int b] => fitting "plus" (a.toInt + b.toInt)
  | args => reject "plus" args

def addFloats : List Value → Except Error Value
  | [.float a, .float b] => .ok (.float (a.add b))
  | args => reject "plus" args

def subInts : List Value → Except Error Value
  | [.int a, .int b] => fitting "minus" (a.toInt - b.toInt)
  | args => reject "minus" args

def subFloats : List Value → Except Error Value
  | [.float a, .float b] => .ok (.float (a.sub b))
  | args => reject "minus" args

def arithmetic : List Builtin :=
  [⟨"plus", [⟨[.int, .int], addInts⟩, ⟨[.float, .float], addFloats⟩]⟩,
    ⟨"minus", [⟨[.int, .int], subInts⟩, ⟨[.float, .float], subFloats⟩]⟩]

/-! ### Strings and lengths -/

def join : List Value → Except Error Value
  | [.str a, .str b] => .ok (.str (a ++ b))
  | args => reject "concat" args

/-- The number of characters of a string, or of items of an array. -/
def count : List Value → Except Error Value
  | [.str s] => fitting "length" s.length
  | [.array items] => fitting "length" items.length
  | args => reject "length" args

def strings : List Builtin :=
  [⟨"plus", [⟨[.str, .str], join⟩]⟩,
    ⟨"concat", [⟨[.str, .str], join⟩]⟩,
    ⟨"length", [⟨[.str], count⟩, ⟨[.array], count⟩]⟩]

/-! ### Comparison -/

/-- True of two equal values; false of any other number of arguments. -/
def same : List Value → Except Error Value
  | [a, b] => .ok (.bool (a == b))
  | _ => .ok (.bool false)

def compare : List Builtin := [⟨"equals", Kind.all.map fun k => ⟨[k, k], same⟩⟩]

/-! ### Conversions -/

def parseInt : List Value → Except Error Value
  | [.str s] =>
    match readInt? s with
    | some n => .ok (.int n)
    | none => .error (.badCast .int s)
  | args => reject "int" args

def parseFloat : List Value → Except Error Value
  | [.str s] =>
    match readFloat? s with
    | some x => .ok (.float x)
    | none => .error (.badCast .float s)
  | args => reject "float" args

def spell : List Value → Except Error Value
  | [.int n] => .ok (.str (String.ofList (Decimal.ofInt n.toInt)))
  | [.float x] => .ok (.str (String.ofList x.plain))
  | args => reject "string" args

def casts : List Builtin :=
  [⟨"int", [⟨[.str], parseInt⟩]⟩,
    ⟨"float", [⟨[.str], parseFloat⟩]⟩,
    ⟨"string", [⟨[.int], spell⟩, ⟨[.float], spell⟩]⟩]

/-- All groups in order. -/
def all : List Builtin := arithmetic ++ strings ++ compare ++ casts

def registry : Registry := (Registry.empty.registerEach all).1

end SinglePass.Standard
