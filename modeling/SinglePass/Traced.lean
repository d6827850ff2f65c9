import SinglePass.Error

/-!
# Traced computations

A traced computation reports events while it runs, and ends with a value or an error.  The events reported before
an error are kept.
-/

namespace SinglePass

inductive Event where
  /-- Lexing succeeded: the bytes of the source and the number of its tokens, blanks included. -/
  | started (bytes tokens : Nat)
  /-- A callee was found; the depth counts the frame that is opened. -/
  | opened (depth : Nat) (callee : String)
  /-- A name was bound to its value. -/
  | bound (name : String)
  /-- A frame is closed; the depth counts it, and the arguments include a name to be bound. -/
  | closed (depth : Nat) (callee : String) (args : Nat)
  | ended (result : Value)

structure Traced (α : Type) where
  events : List Event
  result : Except Error α

namespace Traced

theorem ext {α : Type} {x y : Traced α} (hevents : x.events = y.events) (hresult : x.result = y.result) : x = y := by
  cases x
  cases y
  cases hevents
  cases hresult
  rfl

/-- A computation that reports nothing. -/
def lift {α : Type} (r : Except Error α) : Traced α := ⟨[], r⟩

def emit (e : Event) : Traced Unit := ⟨[e], .ok ()⟩

def fail {α : Type} (e : Error) : Traced α := ⟨[], .error e⟩

instance : Monad Traced where
  pure a := ⟨[], .ok a⟩
  bind x f :=
    match x.result with
    | .ok a =>
      let y := f a
      ⟨x.events ++ y.events, y.result⟩
    | .error e => ⟨x.events, .error e⟩

@[simp]
theorem result_pure {α : Type} (a : α) : (pure a : Traced α).result = .ok a := rfl

@[simp]
theorem result_bind {α β : Type} (x : Traced α) (f : α → Traced β) :
    (x >>= f).result = x.result >>= fun a => (f a).result := by
  cases h : x.result <;> simp [bind, h, Except.bind]

@[simp]
theorem result_lift {α : Type} (r : Except Error α) : (lift r).result = r := rfl

@[simp]
theorem result_emit (e : Event) : (emit e).result = .ok () := rfl

@[simp]
theorem result_fail {α : Type} (e : Error) : (fail e : Traced α).result = .error e := rfl

@[simp]
theorem events_pure {α : Type} (a : α) : (pure a : Traced α).events = [] := rfl

@[simp]
theorem events_emit (e : Event) : (emit e).events = [e] := rfl

theorem events_bind_of_ok {α β : Type} {x : Traced α} {a : α} (h : x.result = .ok a) (f : α → Traced β) :
    (x >>= f).events = x.events ++ (f a).events := by
  simp [bind, h]

theorem events_bind_of_error {α β : Type} {x : Traced α} {e : Error} (h : x.result = .error e) (f : α → Traced β) :
    (x >>= f).events = x.events := by
  simp [bind, h]

end Traced

end SinglePass
