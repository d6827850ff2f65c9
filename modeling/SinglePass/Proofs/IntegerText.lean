import SinglePass.Proofs.Arithmetic
import SinglePass.Proofs.Registering

/-!
# Integers as text

A text denotes an integer if it is made of digits, with or without a sign in front (`Decimal.Denotes`).  The reader
accepts exactly these texts (`Decimal.integer?_eq_some_iff`), as long as the integer fits into 64 bits
(`readInt?_eq_some_iff`).  Integer tokens and the conversion of strings share it and differ in their errors only.  What
is written for an integer denotes it, so the conversion to a string is undone by the conversion to an integer.
-/

namespace SinglePass

/-- The number that the digits denote by their places, the last one counting ones. -/
def Numeral.placeValue (n : Numeral) : Nat := Nat.ofDigits 10 (n.digits.reverse.map fun c => c.toNat - '0'.toNat)

namespace Decimal

/-- One or more digits, with or without a sign, and the integer that they denote. -/
inductive Denotes : List Char → Int → Prop
  | unsigned (n : Numeral) : Denotes n.digits n.placeValue
  | plus (n : Numeral) : Denotes ('+' :: n.digits) n.placeValue
  | minus (n : Numeral) : Denotes ('-' :: n.digits) (-n.placeValue)

/-! ### Reading -/

theorem digitsValue_eq_ofDigits (ds : List Char) :
    digitsValue ds = Nat.ofDigits 10 (ds.reverse.map fun c => c.toNat - '0'.toNat) := by
  induction ds using List.reverseRecOn with
  | nil => rfl
  | append_singleton ds d ih =>
    have hone : digitsValue [d] = d.toNat - '0'.toNat := by simp [digitsValue]
    rw [digitsValue_append, hone, ih, List.length_singleton, pow_one, List.reverse_append, List.reverse_singleton,
      List.singleton_append, List.map_cons, Nat.ofDigits_cons]
    exact Nat.add_comm _ _

theorem natural?_eq_some_iff {cs : List Char} {k : Nat} :
    natural? cs = some k ↔ ∃ n : Numeral, cs = n.digits ∧ k = n.placeValue := by
  unfold natural?
  constructor
  · intro h
    split at h
    · rename_i hcs
      cases h
      exact ⟨⟨cs, hcs.1, List.all_eq_true.1 hcs.2⟩, rfl, digitsValue_eq_ofDigits cs⟩
    · cases h
  · rintro ⟨n, rfl, rfl⟩
    rw [if_pos ⟨n.ne_nil, List.all_eq_true.2 n.isDigit⟩, digitsValue_eq_ofDigits]
    rfl

theorem splitSign_cases (cs : List Char) : (∃ ds, cs = '-' :: ds ∧ splitSign cs = (true, ds)) ∨
    (∃ ds, cs = '+' :: ds ∧ splitSign cs = (false, ds)) ∨ splitSign cs = (false, cs) := by
  unfold splitSign
  split
  · exact .inl ⟨_, rfl, rfl⟩
  · exact .inr (.inl ⟨_, rfl, rfl⟩)
  · exact .inr (.inr rfl)

theorem integer?_eq_map (cs : List Char) :
    integer? cs = (natural? (splitSign cs).2).map fun m : Nat => if (splitSign cs).1 then -(m : Int) else m := by
  unfold integer?
  rcases splitSign cs with ⟨negative, ds⟩
  dsimp only
  cases natural? ds <;> rfl

/-- The reader of signed digits accepts exactly the texts that denote an integer. -/
theorem integer?_eq_some_iff {cs : List Char} {k : Int} : integer? cs = some k ↔ Denotes cs k := by
  constructor
  · intro h
    rw [integer?_eq_map] at h
    obtain ⟨m, hm, hk⟩ := Option.map_eq_some_iff.1 h
    obtain ⟨n, hn, rfl⟩ := natural?_eq_some_iff.1 hm
    rcases splitSign_cases cs with ⟨ds, rfl, hsign⟩ | ⟨ds, rfl, hsign⟩ | hsign
    · rw [hsign] at hn hk
      rw [← hk, show ds = n.digits from hn]
      exact .minus n
    · rw [hsign] at hn hk
      rw [← hk, show ds = n.digits from hn]
      exact .plus n
    · rw [hsign] at hn hk
      rw [← hk, show cs = n.digits from hn]
      exact .unsigned n
  · intro h
    have hread : ∀ n : Numeral, natural? n.digits = some n.placeValue :=
      fun n => natural?_eq_some_iff.2 ⟨n, rfl, rfl⟩
    cases h with
    | unsigned n =>
      rw [integer?_of_isDigit n.ne_nil n.isDigit, digitsValue_eq_ofDigits]
      rfl
    | plus n => simp [integer?, splitSign, hread]
    | minus n => simp [integer?, splitSign, hread]

/-! ### Writing -/

theorem placeValue_ofNat (n : Nat) : (Numeral.ofNat n).placeValue = n := by
  rw [Numeral.placeValue, ← digitsValue_eq_ofDigits]
  exact digitsValue_digits n

theorem denotes_ofInt (k : Int) : Denotes (ofInt k) k := by
  cases k with
  | ofNat n =>
    have h := Denotes.unsigned (Numeral.ofNat n)
    rwa [placeValue_ofNat] at h
  | negSucc n =>
    have h := Denotes.minus (Numeral.ofNat (n + 1))
    rwa [placeValue_ofNat] at h

end Decimal

/-! ### 64 bits -/

theorem int64?_toInt (n : Int64) : int64? n.toInt = some n := by
  have hlt := n.toInt_lt
  have hle := n.le_toInt
  rw [int64?_eq_ite, if_pos (by omega), Int64.ofInt_toInt]

/-- The text denotes an integer of 64 bits. -/
def DenotesInt64 (s : String) (k : Int) : Prop := Decimal.Denotes s.toList k ∧ -2 ^ 63 ≤ k ∧ k ≤ 2 ^ 63 - 1

theorem readInt?_eq_some_iff {s : String} {n : Int64} :
    readInt? s = some n ↔ ∃ k, DenotesInt64 s k ∧ n = Int64.ofInt k := by
  rw [readInt?, Option.bind_eq_some_iff]
  simp only [Decimal.integer?_eq_some_iff, int64?_eq_ite, Option.ite_none_right_eq_some, Option.some.injEq]
  constructor
  · rintro ⟨k, hk, hfits, rfl⟩
    exact ⟨k, ⟨hk, hfits⟩, rfl⟩
  · rintro ⟨k, ⟨hk, hfits⟩, rfl⟩
    exact ⟨k, hk, hfits, rfl⟩

/-- Every integer is read back from its text, negative ones included. -/
theorem readInt?_text (n : Int64) : readInt? (String.ofList (Decimal.ofInt n.toInt)) = some n := by
  rw [readInt?, String.toList_ofList, Decimal.integer?_eq_some_iff.2 (Decimal.denotes_ofInt n.toInt)]
  exact int64?_toInt n

/-- What has to come of a text that is read as an integer: the integer of 64 bits that it denotes, or else the error. -/
def ReadsInteger (s : String) (e : Error) (r : Except Error Value) : Prop :=
  (∀ v, r = .ok v ↔ ∃ k, DenotesInt64 s k ∧ v = .int (Int64.ofInt k)) ∧ ((∀ k, ¬DenotesInt64 s k) → r = .error e)

theorem readsInteger_readInt? (s : String) (e : Error) :
    ReadsInteger s e (match readInt? s with
      | some n => .ok (.int n)
      | none => .error e) := by
  cases hread : readInt? s with
  | some n =>
    obtain ⟨k, hk, rfl⟩ := readInt?_eq_some_iff.1 hread
    refine ⟨?_, fun hno => absurd hk (hno k)⟩
    intro v
    constructor
    · intro h
      cases h
      exact ⟨k, hk, rfl⟩
    · rintro ⟨k', hk', rfl⟩
      have hread' := readInt?_eq_some_iff.2 ⟨k', hk', rfl⟩
      rw [hread] at hread'
      rw [Option.some.inj hread']
  | none =>
    refine ⟨?_, fun _ => rfl⟩
    intro v
    constructor
    · intro h
      cases h
    · rintro ⟨k, hk, -⟩
      rw [readInt?_eq_some_iff.2 ⟨k, hk, rfl⟩] at hread
      cases hread

/-- The conversion to an integer accepts exactly the digits with or without a sign that denote an integer of 64 bits,
and so do integer tokens.  It undoes the conversion of an integer to a string. -/
theorem int_call (s : String) :
    (∃ r, Standard.registry.call? "int" [.str s] = some r ∧ ReadsInteger s (.badCast .int s) r) ∧
    (∀ offset, ∃ r, (Token.mk .int s offset).literal? = some r ∧ ReadsInteger s (.badNumber offset s) r) ∧
    ∀ n : Int64, ∃ t, Standard.registry.call? "string" [.int n] = some (.ok (.str t)) ∧
      Standard.registry.call? "int" [.str t] = some (.ok (.int n)) := by
  have hcall : ∀ t, Standard.registry.call? "int" [.str t] = some (Standard.parseInt [.str t]) := fun t => rfl
  refine ⟨⟨_, hcall s, readsInteger_readInt? s _⟩, fun offset => ⟨_, rfl, readsInteger_readInt? s _⟩, fun n => ?_⟩
  refine ⟨String.ofList (Decimal.ofInt n.toInt), rfl, ?_⟩
  rw [hcall, Standard.parseInt, readInt?_text]

end SinglePass
