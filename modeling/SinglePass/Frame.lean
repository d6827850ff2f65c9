import SinglePass.Builtin
import SinglePass.Scope

/-!
# Frames

A frame is an open parenthesis whose callee is known: the arguments collected so far, the scope to return to when
it closes, and for the binding form the name to be bound.  The binding form counts its name as an argument, and
when two arguments are there, the name and its value, the rest is evaluated under the new binding.
-/

namespace SinglePass

/-- The forms that are not builtins. -/
inductive Form where
  /-- `(if condition then else)` -/
  | conditional
  /-- `(def name value body)` -/
  | binding
deriving DecidableEq, Repr

namespace Form

def name : Form → String
  | conditional => "if"
  | binding => "def"

def ofName? (s : String) : Option Form :=
  if s = conditional.name then some conditional
  else if s = binding.name then some binding
  else none

/-- The number of arguments, a name to bind included. -/
def arity : Form → Nat
  | _ => 3

/-- The first argument is a name to bind. -/
def bindsName : Form → Bool
  | conditional => false
  | binding => true

/-- The number of arguments after which the scope changes. -/
def bindsAfter : Form → Option Nat
  | conditional => none
  | binding => some 2

def requireArity (f : Form) (got : Nat) : Except Error Unit :=
  if got < f.arity then .error (.tooFew f.name f.arity got)
  else if f.arity < got then .error (.tooMany f.name f.arity got)
  else .ok ()

/-- The result of a form, from the values of its arguments. -/
def apply : Form → List Value → Except Error Value
  | conditional, condition :: yes :: no :: _ =>
    match condition.bool? with
    | some b => .ok (if b then yes else no)
    | none => .error (.notBoolean condition.kind)
  | binding, _ :: body :: _ => .ok body
  | f, _ => .error (.tooFew f.name f.arity 0)

end Form

inductive Callee where
  | form (f : Form)
  | builtin (b : Builtin)

namespace Callee

def name : Callee → String
  | form f => f.name
  | builtin b => b.name

def form? : Callee → Option Form
  | form f => some f
  | builtin _ => none

end Callee

structure Frame where
  callee : Callee
  /-- The values of the arguments, in order. -/
  args : List Value
  /-- The name to be bound. -/
  binder : Option String
  /-- The scope in which the frame was opened. -/
  outerScope : Scope
  /-- The number of arguments at which the scope changes. -/
  bindAt : Option Nat

namespace Frame

def new (callee : Callee) (scope : Scope) : Frame where
  callee := callee
  args := []
  binder := none
  outerScope := scope
  bindAt := callee.form?.bind Form.bindsAfter

/-- The number of arguments collected, a name to be bound included. -/
def argCount (f : Frame) : Nat := f.args.length + (if f.binder.isSome then 1 else 0)

/-- The next token has to be a name to bind. -/
def awaitsName (f : Frame) : Bool :=
  f.callee.form?.any Form.bindsName && f.binder.isNone && f.args.isEmpty

def bindsNow (f : Frame) : Bool := decide (f.bindAt = some f.argCount)

def push (f : Frame) (v : Value) : Frame := { f with args := f.args ++ [v] }

/-- The value of the frame when it closes. -/
def result (f : Frame) : Except Error Value :=
  match f.callee with
  | .builtin b => b.call f.args
  | .form form => do
    form.requireArity f.argCount
    form.apply f.args

end Frame

end SinglePass
