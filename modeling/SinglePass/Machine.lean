import SinglePass.ArrayLiteral
import SinglePass.Frame
import SinglePass.Registry
import SinglePass.Traced

/-!
# The evaluating machine

The machine reads one token at a time and evaluates as it goes, without building a tree.  An opening parenthesis
and the name behind it open a frame, which remembers the scope; literals, arrays and names add their values to the
innermost frame; a closing parenthesis computes the value of the frame, returns to the scope it remembered and adds
the value to the frame around it.  Outside all frames the values are results.
-/

namespace SinglePass

/-- What the next token is read as. -/
inductive Mode where
  /-- A literal, a name or a delimiter. -/
  | operand
  /-- The name behind an opening parenthesis. -/
  | callee
  /-- Part of an array literal with these open lists. -/
  | array (stack : List (List Value))

structure Machine where
  /-- The finished top-level values, in order. -/
  values : List Value
  /-- The open frames, the innermost first. -/
  frames : List Frame
  scope : Scope
  mode : Mode

namespace Machine

def start : Machine := ⟨[], [], .empty, .operand⟩

/-- The number of open parentheses. -/
def depth (m : Machine) : Nat :=
  match m.mode with
  | .callee => m.frames.length + 1
  | _ => m.frames.length

/-- What a name behind an opening parenthesis calls.  The forms cannot be redefined. -/
def resolve (registry : Registry) (name : String) : Except Error Callee :=
  match Form.ofName? name with
  | some f => .ok (.form f)
  | none =>
    match registry.find? name with
    | some b => .ok (.builtin b)
    | none => .error (.unknownCallee name)

/-- Reads the token behind an opening parenthesis. -/
def enter (registry : Registry) (m : Machine) (t : Token) : Traced Machine :=
  if t.kind = .identifier then do
    let callee ← Traced.lift (resolve registry t.text)
    Traced.emit (.opened (m.frames.length + 1) callee.name)
    return { m with frames := .new callee m.scope :: m.frames, mode := .operand }
  else Traced.fail (.noCallee t.offset)

/-- Reads the name that the innermost frame binds. -/
def takeName (m : Machine) (t : Token) : Except Error Machine :=
  if t.kind = .identifier then
    match m.frames with
    | f :: rest => .ok { m with frames := { f with binder := some t.text } :: rest }
    | [] => .ok m
  else .error (.noBinder t.offset)

/-- Adds a value to the innermost frame, or to the results. -/
def deliver (m : Machine) (v : Value) : Traced Machine :=
  match m.frames with
  | [] => return { m with values := m.values ++ [v] }
  | f :: rest =>
    let f := f.push v
    match f.bindsNow, f.binder with
    | true, some name => do
      Traced.emit (.bound name)
      return { m with frames := f :: rest, scope := m.scope.push name v }
    | _, _ => return { m with frames := f :: rest }

/-- Reads a closing parenthesis. -/
def leave (m : Machine) : Traced Machine :=
  match m.frames with
  | [] => Traced.fail (.unbalanced (-1))
  | f :: rest => do
    Traced.emit (.closed m.frames.length f.callee.name f.argCount)
    let v ← Traced.lift f.result
    deliver { m with frames := rest, scope := f.outerScope } v

/-- Reads a token of an array literal. -/
def readItem (limit : Nat) (m : Machine) (stack : List (List Value)) (t : Token) : Traced Machine := do
  match ← Traced.lift (ArrayLiteral.step m.depth limit stack t) with
  | .unfinished stack => return { m with mode := .array stack }
  | .finished v => deliver { m with mode := .operand } v

/-- Reads a token that is neither a callee, nor a name to bind, nor part of an array literal. -/
def readOperand (limit : Nat) (m : Machine) (t : Token) : Traced Machine :=
  match t.kind with
  | .openParen => do
    Traced.lift (requireRoom m.depth limit)
    return { m with mode := .callee }
  | .closeParen => m.leave
  | .openBracket => do
    Traced.lift (requireRoom m.depth limit)
    return { m with mode := .array [[]] }
  | .closeBracket => Traced.fail (.strayBracket t.offset)
  | .identifier =>
    match m.scope.lookup t.text with
    | some v => m.deliver v
    | none => Traced.fail (.unbound t.text)
  | .whitespace => return m
  | .string | .int | .float | .bool =>
    match t.literal? with
    | some r => do m.deliver (← Traced.lift r)
    | none => return m

/-- The innermost frame waits for the name that it binds. -/
def awaitsName (m : Machine) : Bool := m.frames.head?.any Frame.awaitsName

/-- Reads one token.  Blanks change nothing. -/
def step (registry : Registry) (limit : Nat) (m : Machine) (t : Token) : Traced Machine :=
  if t.isBlank then return m
  else
    match m.mode with
    | .callee => m.enter registry t
    | .array stack => m.readItem limit stack t
    | .operand =>
      if t.kind ≠ .closeParen ∧ m.awaitsName then Traced.lift (m.takeName t) else m.readOperand limit t

def run (registry : Registry) (limit : Nat) (m : Machine) (ts : List Token) : Traced Machine :=
  ts.foldlM (step registry limit) m

/-- The single result at the end of the input. -/
def outcome (m : Machine) : Except Error Value :=
  match m.mode with
  | .array _ => .error .openArray
  | _ =>
    if m.depth ≠ 0 then .error (.unbalanced m.depth)
    else
      match m.values with
      | [] => .error .noExpression
      | [v] => .ok v
      | vs => .error (.manyExpressions vs.length)

end Machine

end SinglePass
