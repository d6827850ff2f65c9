import SinglePass.Error
import SinglePass.Text.Quoted

/-!
# Builtins

A builtin has a name and overloads, each for one list of argument kinds.  A call takes the first overload whose
parameters are exactly the kinds of the arguments.  If there is none, the number of arguments is to blame when it
lies outside the range of arities, and the kinds are to blame otherwise.  A description of a builtin for people gives
its name and the parameters of its overloads.
-/

namespace SinglePass

structure Overload where
  params : List Kind
  run : List Value → Except Error Value

namespace Overload

def arity (o : Overload) : Nat := o.params.length

def accepts (o : Overload) (kinds : List Kind) : Bool := decide (o.params = kinds)

end Overload

structure Builtin where
  name : String
  overloads : List Overload

namespace Builtin

/-- The least and the greatest arity, if there is an overload at all. -/
def arityBounds (b : Builtin) : Option (Nat × Nat) :=
  let arities := b.overloads.map Overload.arity
  match arities.min?, arities.max? with
  | some least, some greatest => some (least, greatest)
  | _, _ => none

/-- What is wrong with a number of arguments that no overload takes; nothing if it lies between two arities. -/
def arityError? (b : Builtin) (got : Nat) : Option Error :=
  match b.arityBounds with
  | some (least, greatest) =>
    if got < least then some (.tooFew b.name least got)
    else if greatest < got then some (.tooMany b.name greatest got)
    else none
  | none => none

def resolve (b : Builtin) (args : List Value) : Except Error Overload :=
  let kinds := args.map Value.kind
  match b.overloads.find? (·.accepts kinds) with
  | some o => .ok o
  | none =>
    let blamed := if b.overloads.any (·.arity == args.length) then none else b.arityError? args.length
    .error (blamed.getD (.noOverload b.name kinds))

def call (b : Builtin) (args : List Value) : Except Error Value := do
  let o ← b.resolve args
  o.run args

end Builtin

/-! ### Descriptions -/

def Kind.title : Kind → String
  | int => "Int"
  | float => "Float"
  | str => "Str"
  | bool => "Bool"
  | array => "Array"

/-- Items between brackets. -/
private def bracketed (items : List String) : String := "[" ++ ", ".intercalate items ++ "]"

def Overload.description (o : Overload) : String :=
  "Overload \x7b params: " ++ bracketed (o.params.map Kind.title) ++ ", .. \x7d"

def Builtin.description (b : Builtin) : String :=
  "BuiltinSpec \x7b name: " ++ Text.quoted b.name ++ ", overloads: "
    ++ bracketed (b.overloads.map Overload.description) ++ " \x7d"

end SinglePass
