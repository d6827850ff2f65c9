import SinglePass.Builtin

/-!
# Registries

A registry is a table of builtins with their names as keys.  Registering a builtin appends its overloads to those
already held under its name, up to the first one whose parameters are taken: that one is the error, and what was
appended before it stays.
-/

namespace SinglePass

structure Registry where
  entries : List (String × Builtin)
  name_eq_key : ∀ p ∈ entries, p.2.name = p.1

namespace Registry

private theorem name_eq_key_nil : ∀ p ∈ ([] : List (String × Builtin)), p.2.name = p.1 := by simp

def empty : Registry := ⟨[], name_eq_key_nil⟩

def find? (r : Registry) (name : String) : Option Builtin := r.entries.lookup name

def contains (r : Registry) (name : String) : Bool := (r.find? name).isSome

def builtins (r : Registry) : List Builtin := r.entries.map Prod.snd

def size (r : Registry) : Nat := r.entries.length

def isEmpty (r : Registry) : Bool := r.entries.isEmpty

/-- The names in increasing order of their characters. -/
def names (r : Registry) : List String := (r.entries.map Prod.fst).mergeSort fun a b => decide (a ≤ b)

/-- The overloads held under a name; none if the name is unknown. -/
def overloads (r : Registry) (name : String) : List Overload := ((r.find? name).map Builtin.overloads).getD []

/-- Gives these overloads to the builtin under a key, or to a new builtin of this name behind all others. -/
def put (name : String) (os : List Overload) : List (String × Builtin) → List (String × Builtin)
  | [] => [(name, ⟨name, os⟩)]
  | (key, b) :: rest => if key = name then (key, { b with overloads := os }) :: rest else (key, b) :: put name os rest

theorem name_eq_key_put {es : List (String × Builtin)} (h : ∀ p ∈ es, p.2.name = p.1) (name : String)
    (os : List Overload) : ∀ p ∈ put name os es, p.2.name = p.1 := by
  induction es with
  | nil => simp [put]
  | cons e es ih =>
    obtain ⟨he, hes⟩ := List.forall_mem_cons.1 h
    unfold put
    split
    · exact List.forall_mem_cons.2 ⟨he, hes⟩
    · exact List.forall_mem_cons.2 ⟨he, ih hes⟩

/-- Appends overloads up to the first whose parameters are taken, which is returned beside the result. -/
def addOverloads : List Overload → List Overload → List Overload × Option Overload
  | held, [] => (held, none)
  | held, o :: more =>
    if held.any fun h => decide (h.params = o.params) then (held, some o) else addOverloads (held ++ [o]) more

/-- The registry after registering a builtin, and the error if there was one. -/
def register (r : Registry) (b : Builtin) : Registry × Option Error :=
  let (held, taken) := addOverloads (r.overloads b.name) b.overloads
  (⟨put b.name held r.entries, name_eq_key_put r.name_eq_key b.name held⟩,
    taken.map fun o => .duplicate b.name o.params)

/-- Registers builtins one after another, up to the first error. -/
def registerEach (r : Registry) : List Builtin → Registry × Option Error
  | [] => (r, none)
  | b :: bs =>
    match r.register b with
    | (r', none) => r'.registerEach bs
    | (r', some e) => (r', some e)

end Registry

end SinglePass
