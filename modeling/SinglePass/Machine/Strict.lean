import SinglePass.Interpreter

/-!
# The machine without fallbacks

In a few places the machine has a case that its own bookkeeping should rule out, and goes on with something harmless
there: a name is dropped if no frame is open, a value is not bound if the frame has no name, a form that got through
the check of its arguments reports that there are none, and so on.  The strict machine takes the same steps, but stops
wherever the machine would take such a case.
-/

namespace SinglePass

namespace Strict

/-- Why a strict machine stops. -/
inductive Stop where
  /-- An error that the machine reports too. -/
  | error (e : Error)
  /-- The machine would fall back on something. -/
  | fallback

def ofResult {α : Type} (r : Except Error α) : Except Stop α := r.mapError .error

def fail {α : Type} (e : Error) : Except Stop α := .error (.error e)

/-- Adds a value to the innermost frame, or to the results.  A frame that binds now has a name and a last argument. -/
def deliver (m : Machine) (v : Value) : Except Stop Machine :=
  match m.frames with
  | [] => return { m with values := m.values ++ [v] }
  | f :: rest =>
    let f := f.push v
    if f.bindsNow then
      match f.binder, f.args.getLast? with
      | some name, some bound => return { m with frames := f :: rest, scope := m.scope.push name bound }
      | _, _ => .error .fallback
    else return { m with frames := f :: rest }

/-- Reads the name that the innermost frame binds, which has to be there. -/
def takeName (m : Machine) (t : Token) : Except Stop Machine :=
  if t.kind = .identifier then
    match m.frames with
    | f :: rest => return { m with frames := { f with binder := some t.text } :: rest }
    | [] => .error .fallback
  else fail (.noBinder t.offset)

/-- The result of a form whose arguments were counted: three values, or a name and two values. -/
def applyForm : Form → Option String → List Value → Except Stop Value
  | .conditional, none, [condition, yes, no] =>
    match condition.bool? with
    | some b => return if b then yes else no
    | none => fail (.notBoolean condition.kind)
  | .binding, some _, [_, body] => return body
  | _, _, _ => .error .fallback

/-- Calls a builtin.  The overload that is chosen has to be one for the kinds of the arguments. -/
def call (b : Builtin) (args : List Value) : Except Stop Value := do
  let o ← ofResult (b.resolve args)
  if o.params = args.map Value.kind then ofResult (o.run args) else .error .fallback

def result (f : Frame) : Except Stop Value :=
  match f.callee with
  | .builtin b => call b f.args
  | .form form => do
    ofResult (form.requireArity f.argCount)
    applyForm form f.binder f.args

/-- Reads a closing parenthesis. -/
def leave (m : Machine) : Except Stop Machine :=
  match m.frames with
  | [] => fail (.unbalanced (-1))
  | f :: rest => do
    let v ← result f
    deliver { m with frames := rest, scope := f.outerScope } v

/-- The value of a token that is read as a literal. -/
def literal (t : Token) : Except Stop Value :=
  match t.literal? with
  | some r => ofResult r
  | none => .error .fallback

/-- Reads one token of an array literal, which has an open list. -/
def arrayStep (opened limit : Nat) (stack : List (List Value)) (t : Token) :
    Except Stop ArrayLiteral.Progress :=
  match stack with
  | [] => .error .fallback
  | items :: outer =>
    if t.kind.isLiteral then do
      let v ← literal t
      return .unfinished ((items ++ [v]) :: outer)
    else ofResult (ArrayLiteral.step opened limit stack t)

def readItem (limit : Nat) (m : Machine) (stack : List (List Value)) (t : Token) : Except Stop Machine := do
  match ← arrayStep m.depth limit stack t with
  | .unfinished stack => return { m with mode := .array stack }
  | .finished v => deliver { m with mode := .operand } v

/-- Reads a token that is neither a callee, nor a name to bind, nor part of an array literal.  Blanks do not get
here. -/
def readOperand (limit : Nat) (m : Machine) (t : Token) : Except Stop Machine :=
  match t.kind with
  | .openParen => do
    ofResult (requireRoom m.depth limit)
    return { m with mode := .callee }
  | .closeParen => leave m
  | .openBracket => do
    ofResult (requireRoom m.depth limit)
    return { m with mode := .array [[]] }
  | .closeBracket => fail (.strayBracket t.offset)
  | .identifier =>
    match m.scope.lookup t.text with
    | some v => deliver m v
    | none => fail (.unbound t.text)
  | .whitespace => .error .fallback
  | .string | .int | .float | .bool => do deliver m (← literal t)

/-- Reads one token. -/
def step (registry : Registry) (limit : Nat) (m : Machine) (t : Token) : Except Stop Machine :=
  if t.isBlank then return m
  else
    match m.mode with
    | .callee => ofResult (m.enter registry t).result
    | .array stack => readItem limit m stack t
    | .operand =>
      if t.kind ≠ .closeParen ∧ m.awaitsName then takeName m t else readOperand limit m t

def run (registry : Registry) (limit : Nat) (m : Machine) (ts : List Token) : Except Stop Machine :=
  ts.foldlM (step registry limit) m

/-- Evaluates tokens without fallbacks. -/
def runTokens (i : Interpreter) (ts : List Token) : Except Stop Value := do
  let m ← run i.registry i.config.limit.toNat .start ts
  ofResult m.outcome

end Strict

end SinglePass
