import SinglePass.Proofs.Printable

/-!
# Equality of values

The equality `==` of values is a partial equivalence: symmetric and transitive, but reflexive only at values that hold
no NaN (`Value.beq_self_iff`).  All three are inductions over the items of arrays, which are compared one by one
(`Value.array_beq_iff`); what is special about doubles is settled before, on their bits.

Values of different kinds are different.  The builtin `equals` does not even compare them, because it has one overload
for each kind; but inside arrays the kinds may be mixed.
-/

namespace SinglePass

/-! ### Doubles as bits -/

namespace Binary64

/-- The eleven bits of the exponent. -/
def exponentBits (x : Binary64) : Nat := x.bits.toNat / 2 ^ 52 % 2 ^ 11

/-- The fifty-two bits of the fraction. -/
def fractionBits (x : Binary64) : Nat := x.bits.toNat % 2 ^ 52

/-- A NaN has all bits of the exponent and some bit of the fraction. -/
theorem isNaN_iff {x : Binary64} : x.isNaN = true ↔ x.exponentBits = 2 ^ 11 - 1 ∧ x.fractionBits ≠ 0 := by
  have hlt := x.bits.toNat_lt
  rw [isNaN, decide_eq_true_iff]
  simp only [magnitude, infinite, signBit, exponentBits, fractionBits]
  omega

/-- A zero has no bit but the sign. -/
theorem isZero_iff {x : Binary64} : x.isZero = true ↔ x.exponentBits = 0 ∧ x.fractionBits = 0 := by
  have hlt := x.bits.toNat_lt
  rw [isZero, decide_eq_true_iff]
  simp only [magnitude, signBit, exponentBits, fractionBits]
  omega

theorem numEq_iff {x y : Binary64} :
    x.numEq y = true ↔
      x.isNaN = false ∧ y.isNaN = false ∧ (x.bits = y.bits ∨ x.isZero = true ∧ y.isZero = true) := by
  simp [numEq, and_assoc]

theorem numEq_self_iff {x : Binary64} : x.numEq x = true ↔ x.isNaN = false := by
  rw [numEq_iff]
  exact ⟨fun h => h.1, fun h => ⟨h, h, .inl rfl⟩⟩

theorem numEq_symm {x y : Binary64} (h : x.numEq y = true) : y.numEq x = true := by
  rw [numEq_iff] at h ⊢
  obtain ⟨hx, hy, hbits | ⟨hzx, hzy⟩⟩ := h
  · exact ⟨hy, hx, .inl hbits.symm⟩
  · exact ⟨hy, hx, .inr ⟨hzy, hzx⟩⟩

theorem eq_of_bits_eq {x y : Binary64} (h : x.bits = y.bits) : x = y := by
  cases x
  cases y
  cases h
  rfl

theorem numEq_trans {x y z : Binary64} (hxy : x.numEq y = true) (hyz : y.numEq z = true) : x.numEq z = true := by
  have hx := numEq_iff.1 hxy
  have hz := numEq_iff.1 hyz
  rcases hx.2.2 with hbits | ⟨hzx, -⟩
  · rw [eq_of_bits_eq hbits]
    exact hyz
  · rcases hz.2.2 with hbits | ⟨-, hzz⟩
    · rw [← eq_of_bits_eq hbits]
      exact hxy
    · exact numEq_iff.2 ⟨hx.1, hz.2.1, .inr ⟨hzx, hzz⟩⟩

end Binary64

/-! ### Values -/

namespace Value

/-- Induction over values: an array has the property if all its items have it. -/
theorem induction {P : Value → Prop} (plain : ∀ v, v.kind ≠ .float → v.kind ≠ .array → P v)
    (float : ∀ x, P (.float x)) (array : ∀ items, (∀ v ∈ items, P v) → P (.array items)) (v : Value) : P v :=
  match v with
  | .int n => plain (.int n) (by simp [kind]) (by simp [kind])
  | .float x => float x
  | .str s => plain (.str s) (by simp [kind]) (by simp [kind])
  | .bool b => plain (.bool b) (by simp [kind]) (by simp [kind])
  | .array items => array items fun v _ => Value.induction plain float array v

theorem exists_float_of_kind {v : Value} (h : v.kind = .float) : ∃ x, v = .float x := by
  cases v <;> simp [kind] at h ⊢

theorem exists_array_of_kind {v : Value} (h : v.kind = .array) : ∃ items, v = .array items := by
  cases v <;> simp [kind] at h ⊢

theorem float_beq (x y : Binary64) : (float x == float y) = x.numEq y := by
  show eq (float x) (float y) = x.numEq y
  rw [eq]

theorem kind_eq_of_beq {a b : Value} (h : (a == b) = true) : a.kind = b.kind := by
  change eq a b = true at h
  cases a <;> cases b <;> simp [eq, kind] at h ⊢

theorem eqItems_iff {as bs : List Value} :
    eqItems as bs = true ↔ List.Forall₂ (fun a b : Value => (a == b) = true) as bs := by
  induction as generalizing bs with
  | nil => cases bs <;> simp [eqItems]
  | cons a as ih =>
    cases bs with
    | nil => simp [eqItems]
    | cons b bs =>
      rw [eqItems, Bool.and_eq_true, ih, List.forall₂_cons]
      rfl

/-- Arrays are equal if they have the same length and equal items in the same places. -/
theorem array_beq_iff {as bs : List Value} :
    (array as == array bs) = true ↔ as.length = bs.length ∧
      ∀ i (ha : i < as.length) (hb : i < bs.length), (as[i] == bs[i]) = true := by
  show eq (array as) (array bs) = true ↔ _
  rw [eq, eqItems_iff, List.forall₂_iff_get]
  rfl

/-- Apart from doubles and arrays, equality is identity. -/
theorem beq_iff_eq_of_kind {a b : Value} (hfloat : a.kind ≠ .float) (harray : a.kind ≠ .array) :
    (a == b) = true ↔ a = b := by
  show eq a b = true ↔ a = b
  cases a <;> cases b <;> simp [eq, kind] at hfloat harray ⊢

theorem beq_symm {a b : Value} (h : (a == b) = true) : (b == a) = true := by
  induction a using Value.induction generalizing b with
  | plain a hfloat harray =>
    rw [beq_iff_eq_of_kind hfloat harray] at h
    subst h
    exact (beq_iff_eq_of_kind hfloat harray).2 rfl
  | float x =>
    obtain ⟨y, rfl⟩ := exists_float_of_kind (kind_eq_of_beq h).symm
    rw [float_beq] at h ⊢
    exact Binary64.numEq_symm h
  | array as ih =>
    obtain ⟨bs, rfl⟩ := exists_array_of_kind (kind_eq_of_beq h).symm
    rw [array_beq_iff] at h ⊢
    exact ⟨h.1.symm, fun i hb ha => ih as[i] (List.getElem_mem ha) (h.2 i ha hb)⟩

theorem beq_trans {a b c : Value} (hab : (a == b) = true) (hbc : (b == c) = true) : (a == c) = true := by
  induction a using Value.induction generalizing b c with
  | plain a hfloat harray =>
    rw [beq_iff_eq_of_kind hfloat harray] at hab
    rw [hab]
    exact hbc
  | float x =>
    obtain ⟨y, rfl⟩ := exists_float_of_kind (kind_eq_of_beq hab).symm
    obtain ⟨z, rfl⟩ := exists_float_of_kind (kind_eq_of_beq hbc).symm
    rw [float_beq] at hab hbc ⊢
    exact Binary64.numEq_trans hab hbc
  | array as ih =>
    obtain ⟨bs, rfl⟩ := exists_array_of_kind (kind_eq_of_beq hab).symm
    obtain ⟨cs, rfl⟩ := exists_array_of_kind (kind_eq_of_beq hbc).symm
    rw [array_beq_iff] at hab hbc ⊢
    refine ⟨hab.1.trans hbc.1, fun i ha hc => ?_⟩
    have hb : i < bs.length := hab.1 ▸ ha
    exact ih as[i] (List.getElem_mem ha) (hab.2 i ha hb) (hbc.2 i hb hc)

theorem eq_of_within {v w : Value} (hv : v.kind ≠ .array) (h : w.Within v) : w = v := by
  cases h with
  | refl => rfl
  | item => simp [kind] at hv

/-- A value is equal to itself unless a NaN occurs in it. -/
theorem beq_self_iff {a : Value} : (a == a) = true ↔ ∀ x, Within (.float x) a → x.isNaN = false := by
  induction a using Value.induction with
  | plain a hfloat harray =>
    refine iff_of_true ((beq_iff_eq_of_kind hfloat harray).2 rfl) fun x hx => ?_
    cases eq_of_within harray hx
    exact absurd rfl hfloat
  | float y =>
    rw [float_beq, Binary64.numEq_self_iff]
    refine ⟨fun hy x hx => ?_, fun h => h y .refl⟩
    cases eq_of_within (by simp [kind]) hx
    exact hy
  | array items ih =>
    have hitems : (array items == array items) = true ↔ ∀ v ∈ items, (v == v) = true := by
      show eq (array items) (array items) = true ↔ _
      rw [eq, eqItems_iff, List.forall₂_same]
    rw [hitems]
    constructor
    · intro h x hx
      cases hx with
      | item hv hx => exact (ih _ hv).1 (h _ hv) x hx
    · exact fun h v hv => (ih v hv).2 fun x hx => h x (.item hv hx)

end Value

/-! ### The builtin -/

theorem Standard.call_equals (a b : Value) :
    registry.call? "equals" [a, b] = some (if a.kind = b.kind then .ok (.bool (a == b))
      else .error (.noOverload "equals" [a.kind, b.kind])) := by
  cases a <;> cases b <;> rfl

/-- The builtin `equals` compares values of the same kind and rejects others, and the equality by which it compares is
a partial equivalence.  It is symmetric and transitive; equal values have the same kind; arrays are equal if they have
the same length and equal items; and a value is equal to itself if and only if no NaN occurs in it.  Doubles are
compared as numbers: their bits are the same or both are zeros, and neither is a NaN. -/
theorem equals_partialEquivalence :
    (∀ a b : Value, Standard.registry.call? "equals" [a, b] = some (if a.kind = b.kind then .ok (.bool (a == b))
      else .error (.noOverload "equals" [a.kind, b.kind]))) ∧
    (∀ a b : Value, (a == b) = (b == a)) ∧
    (∀ a b c : Value, a == b → b == c → a == c) ∧
    (∀ a b : Value, a == b → a.kind = b.kind) ∧
    (∀ as bs : List Value, Value.array as == .array bs ↔ as.length = bs.length ∧
      ∀ i (ha : i < as.length) (hb : i < bs.length), as[i] == bs[i]) ∧
    (∀ a : Value, a == a ↔ ¬∃ x, Value.Within (.float x) a ∧ x.exponentBits = 2 ^ 11 - 1 ∧ x.fractionBits ≠ 0) ∧
    (∀ x y : Binary64, Value.float x == .float y ↔
      (x.bits = y.bits ∨ (x.exponentBits = 0 ∧ x.fractionBits = 0) ∧ y.exponentBits = 0 ∧ y.fractionBits = 0) ∧
        ¬(x.exponentBits = 2 ^ 11 - 1 ∧ x.fractionBits ≠ 0) ∧ ¬(y.exponentBits = 2 ^ 11 - 1 ∧ y.fractionBits ≠ 0)) ∧
    ∀ a b : Value, a.kind ≠ .float → a.kind ≠ .array → (a == b ↔ a = b) := by
  refine ⟨Standard.call_equals, ?_, fun a b c => Value.beq_trans, fun a b => Value.kind_eq_of_beq,
    fun as bs => Value.array_beq_iff, ?_, ?_, fun a b => Value.beq_iff_eq_of_kind⟩
  · exact fun a b => Bool.eq_iff_iff.2 ⟨Value.beq_symm, Value.beq_symm⟩
  · intro a
    rw [Value.beq_self_iff, not_exists]
    refine forall_congr' fun x => ?_
    rw [← Binary64.isNaN_iff, not_and, Bool.not_eq_true]
  · intro x y
    rw [Value.float_beq, Binary64.numEq_iff, ← Binary64.isNaN_iff, ← Binary64.isNaN_iff, ← Binary64.isZero_iff,
      ← Binary64.isZero_iff, Bool.not_eq_true, Bool.not_eq_true]
    tauto

/-- An array of both zeros, one of them in an array of its own. -/
private def zeros (outer inner : UInt64) : Value := .array [.float ⟨outer⟩, .str "", .array [.float ⟨inner⟩]]

/-- A NaN below two brackets. -/
private def undefinedInside : Value := .array [.int 1, .array [.float ⟨0xFFF8000000000001⟩]]

/-- The sign of a zero does not count, wherever it stands; an array with a NaN differs from itself; and an array is not
compared with a number, though the items of an array are. -/
theorem equals_of_zeros :
    zeros 0 0x8000000000000000 == zeros 0x8000000000000000 0 ∧ zeros 0 0x8000000000000000 == zeros 0 0 ∧
    Standard.registry.call? "equals" [zeros 0 0x8000000000000000, zeros 0 0] = some (.ok (.bool true)) ∧
    (undefinedInside == undefinedInside) = false ∧
    Standard.registry.call? "equals" [undefinedInside, undefinedInside] = some (.ok (.bool false)) ∧
    Standard.registry.call? "equals" [undefinedInside, .int 1] = some (.error (.noOverload "equals" [.array, .int])) ∧
    Standard.registry.call? "equals" [.array [.int 1], .array [.str ""]] = some (.ok (.bool false)) := by
  obtain ⟨hcall, -, htrans, -, -, hself, -, -⟩ := equals_partialEquivalence
  have hfirst : zeros 0 0x8000000000000000 == zeros 0x8000000000000000 0 := by decide
  have hsecond : zeros 0x8000000000000000 0 == zeros 0 0 := by decide
  have hequal := htrans _ _ _ hfirst hsecond
  have hdiffers : (undefinedInside == undefinedInside) = false := by
    rw [← Bool.not_eq_true, hself, not_not]
    refine ⟨⟨0xFFF8000000000001⟩, .item (v := .array [.float ⟨0xFFF8000000000001⟩]) ?_ (.item ?_ .refl), ?_⟩
    · simp
    · simp
    · decide
  have hkind : (zeros 0 0x8000000000000000).kind = (zeros 0 0).kind := rfl
  refine ⟨hfirst, hequal, ?_, hdiffers, ?_, hcall _ _, hcall _ _⟩
  · rw [hcall, if_pos hkind, hequal]
  · rw [hcall, if_pos rfl, hdiffers]

end SinglePass
