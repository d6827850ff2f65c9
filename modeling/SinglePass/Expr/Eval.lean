import SinglePass.ArrayLiteral
import SinglePass.Expr
import SinglePass.Frame
import SinglePass.Machine

/-!
# Evaluation of trees

The value of an expression tree by recursion, from left to right.  `depth` counts the parentheses and brackets
around the tree.  All arguments of a form are evaluated before it is applied, and the arguments of the binding form
behind its value are evaluated under the new binding.
-/

namespace SinglePass

/-- The error of a form with a wrong number of arguments. -/
def Form.arityError (f : Form) (got : Nat) : Error :=
  if got < 3 then .tooFew f.name 3 got else .tooMany f.name 3 got

/-- Applies a callee to the values of its arguments.  The binding form gets here only without a name to bind. -/
def Callee.applyTo : Callee → List Value → Except Error Value
  | .builtin b, vs => b.call vs
  | .form .conditional, [.bool b, yes, no] => .ok (if b then yes else no)
  | .form .conditional, [v, _, _] => .error (.notBoolean v.kind)
  | .form f, vs => .error (f.arityError vs.length)

mutual

def Datum.eval (limit depth : Nat) : Datum → Except Error Value
  | .literal t => t.literal?.getD (.error (.badNumber t.offset t.text))
  | .array items => do
    requireRoom depth limit
    return .array (← Datum.evalAll limit (depth + 1) items)

def Datum.evalAll (limit depth : Nat) : List Datum → Except Error (List Value)
  | [] => .ok []
  | d :: rest => do
    let v ← d.eval limit depth
    let vs ← Datum.evalAll limit depth rest
    return v :: vs

end

mutual

def Expr.eval (registry : Registry) (limit : Nat) (scope : Scope) (depth : Nat) : Expr → Except Error Value
  | .datum d => d.eval limit depth
  | .name s =>
    match scope.lookup s with
    | some v => .ok v
    | none => .error (.unbound s)
  | .form callee args => do
    requireRoom depth limit
    let c ← Machine.resolve registry callee
    let vs ← Expr.evalAll registry limit scope (depth + 1) args
    c.applyTo vs
  | .binding _ [] => do
    requireRoom depth limit
    .error (Form.arityError .binding 1)
  | .binding bound (value :: rest) => do
    requireRoom depth limit
    let v ← value.eval registry limit scope (depth + 1)
    let vs ← Expr.evalAll registry limit (scope.push bound v) (depth + 1) rest
    match vs with
    | [body] => .ok body
    | _ => .error (Form.arityError .binding (vs.length + 2))

def Expr.evalAll (registry : Registry) (limit : Nat) (scope : Scope) (depth : Nat) :
    List Expr → Except Error (List Value)
  | [] => .ok []
  | e :: rest => do
    let v ← e.eval registry limit scope depth
    let vs ← Expr.evalAll registry limit scope depth rest
    return v :: vs

end

end SinglePass
