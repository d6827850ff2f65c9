import SinglePass.Decimal.Layout
import SinglePass.Proofs.Rounding
import SinglePass.Proofs.Writing
import SinglePass.Token.Literal

/-!
# Numbers written and read

Integers and doubles that are not negative are read back from their own text (`readInt?_ofInt`,
`readFloat?_withPoint`).  The digits of a natural number denote it.  The text of a double is digits with a point, and
how they are laid out does not change the value that they denote (`Decimal.pointed_layout`), so the text denotes a
decimal that rounds to the double: the double itself if it is integral, and the digits chosen for it otherwise.
-/

namespace SinglePass

namespace Decimal

/-! ### Digits -/

theorem digitsValue_eq (ds : List Char) : digitsValue ds = Nat.ofDigitChars 10 ds 0 := by
  rw [Nat.ofDigitChars_eq_foldl, digitsValue]

theorem digitsValue_digits (n : Nat) : digitsValue (digits n) = n := by
  rw [digitsValue_eq, digits, Nat.ofDigitChars_ten_toDigits]

theorem digitsValue_append (u v : List Char) :
    digitsValue (u ++ v) = 10 ^ v.length * digitsValue u + digitsValue v := by
  simp only [digitsValue_eq]
  rw [Nat.ofDigitChars_append, Nat.ofDigitChars_eq_ofDigitChars_zero]

theorem digitsValue_replicate (k : Nat) : digitsValue (List.replicate k '0') = 0 := by
  rw [digitsValue_eq, Nat.ofDigitChars_replicate_zero, Nat.mul_zero]

theorem isDigit_of_mem_digits {n : Nat} {c : Char} (h : c ∈ digits n) : c.isDigit = true :=
  Nat.isDigit_of_mem_toDigits (by norm_num) (by norm_num) h

theorem digits_ne_nil (n : Nat) : digits n ≠ [] := Nat.toDigits_ne_nil

theorem isDigit_of_mem_replicate {k : Nat} {c : Char} (h : c ∈ List.replicate k '0') : c.isDigit = true := by
  rw [List.eq_of_mem_replicate h]
  rfl

/-- Digits are not taken for a sign. -/
theorem splitSign_of_isDigit {cs : List Char} (h : ∀ c ∈ cs.head?, c.isDigit = true) : splitSign cs = (false, cs) := by
  unfold splitSign
  split
  · exact absurd (h '-' rfl) (by decide)
  · exact absurd (h '+' rfl) (by decide)
  · rfl

theorem integer?_of_isDigit {cs : List Char} (hne : cs ≠ []) (h : ∀ c ∈ cs, c.isDigit = true) :
    integer? cs = some (digitsValue cs : Int) := by
  have hsign : splitSign cs = (false, cs) := splitSign_of_isDigit fun c hc => h c (List.mem_of_mem_head? hc)
  have hnatural : natural? cs = some (digitsValue cs) := by
    rw [natural?, if_pos ⟨hne, List.all_eq_true.2 h⟩]
  simp [integer?, hsign, hnatural]

theorem integer?_digits (n : Nat) : integer? (digits n) = some (n : Int) := by
  rw [integer?_of_isDigit (digits_ne_nil n) fun c hc => isDigit_of_mem_digits hc, digitsValue_digits]

end Decimal

/-- An integer that is not negative is read back from its digits. -/
theorem readInt?_ofInt {n : Int64} (h : 0 ≤ n.toInt) : readInt? (String.ofList (Decimal.ofInt n.toInt)) = some n := by
  obtain ⟨k, hk⟩ := Int.eq_ofNat_of_zero_le h
  have hlt := n.toInt_lt
  have hle := n.le_toInt
  have hfits : int64? (k : Int) = some n := by
    rw [int64?, if_pos (by omega), ← hk, Int64.ofInt_toInt]
  rw [readInt?, String.toList_ofList, hk]
  simp [Decimal.ofInt, Decimal.integer?_digits, hfits]

namespace Decimal

/-! ### Digits with a point -/

/-- The text is digits with a point among or behind them, and denotes the decimal. -/
def Pointed (cs : List Char) (d : Decimal) : Prop :=
  ∃ whole fraction, cs = whole ++ '.' :: fraction ∧ whole ≠ [] ∧ (∀ c ∈ whole, c.isDigit = true) ∧
    (∀ c ∈ fraction, c.isDigit = true) ∧ d = ⟨digitsValue (whole ++ fraction), -fraction.length⟩

namespace Pointed

variable {cs : List Char} {d : Decimal}

theorem signed? (h : Pointed cs d) : signed? cs = some (false, d) := by
  obtain ⟨whole, fraction, rfl, hne, hwhole, hfraction, rfl⟩ := h
  have hpoint : ∀ c ∈ ('.' :: fraction).head?, c.isDigit = false := by simp
  have hsign : splitSign (whole ++ '.' :: fraction) = (false, whole ++ '.' :: fraction) := by
    apply splitSign_of_isDigit
    intro c hc
    rw [List.head?_append_of_ne_nil _ hne] at hc
    exact hwhole c (List.mem_of_mem_head? hc)
  have htake := List.takeWhile_eq_self_iff.2 hfraction
  have hdrop := List.dropWhile_eq_nil_iff.2 hfraction
  simp [Decimal.signed?, hsign, unsigned?, takeWhile_append_of_ends hwhole hpoint,
    dropWhile_append_of_ends hwhole hpoint, htake, hdrop, hne, exponent?]

theorem wellFormed (h : Pointed cs d) : Lexer.WellFormed .float cs := by
  obtain ⟨whole, fraction, rfl, hne, hwhole, hfraction, -⟩ := h
  exact .float hwhole hfraction fun hnil => hne hnil.1

end Pointed

theorem pointed_of_split {d : Decimal} {whole fraction : List Char} (h : d.split = (whole, fraction))
    (hwhole : whole ≠ []) (hfraction : fraction ≠ []) (hdigits : ∀ c ∈ whole ++ fraction, c.isDigit = true)
    (hvalue : digitsValue (whole ++ fraction) = d.coefficient) (hexponent : d.exponent = -fraction.length) :
    Pointed d.pointed d := by
  have hpointed : d.pointed = whole ++ '.' :: fraction := by
    obtain ⟨c, fraction, rfl⟩ := List.exists_cons_of_ne_nil hfraction
    rw [pointed, h]
  refine ⟨whole, fraction, hpointed, hwhole, ?_, ?_, ?_⟩
  · exact fun c hc => hdigits c (List.mem_append_left _ hc)
  · exact fun c hc => hdigits c (List.mem_append_right _ hc)
  · rw [hvalue, ← hexponent]

/-- The digits of an integer, with one digit behind the point. -/
theorem pointed_integer {ds : List Char} (hne : ds ≠ []) (hds : ∀ c ∈ ds, c.isDigit = true) :
    ∃ d : Decimal, Pointed (ds ++ ['.', '0']) d ∧ d.value = digitsValue ds := by
  refine ⟨_, ⟨ds, ['0'], rfl, hne, hds, by simp, rfl⟩, ?_⟩
  have hzero : digitsValue ['0'] = 0 := rfl
  rw [value, digitsValue_append, hzero, List.length_singleton, Nat.cast_one, zpow_neg_one]
  push_cast
  ring

/-- The layout with a point keeps the value. -/
theorem pointed_layout (d : Decimal) : ∃ d' : Decimal, Pointed d.pointed d' ∧ d'.value = d.value := by
  have hne := digits_ne_nil d.coefficient
  have hds : ∀ c ∈ digits d.coefficient, c.isDigit = true := fun c hc => isDigit_of_mem_digits hc
  have hvalue := digitsValue_digits d.coefficient
  have hzeros : ∀ n, ∀ c ∈ List.replicate n '0', c.isDigit = true := fun n c hc => isDigit_of_mem_replicate hc
  generalize hdigits : digits d.coefficient = ds at hne hds hvalue
  cases he : d.exponent with
  | ofNat k =>
    -- zeros fill the digits up to the point
    have hpointed : d.pointed = ds ++ List.replicate k '0' ++ ['.', '0'] := by
      simp only [pointed, split, he, hdigits]
    have hwhole : ds ++ List.replicate k '0' ≠ [] := List.append_ne_nil_of_left_ne_nil hne _
    obtain ⟨d', hd', hvalue'⟩ := pointed_integer hwhole (List.forall_mem_append.2 ⟨hds, hzeros k⟩)
    refine ⟨d', hpointed ▸ hd', ?_⟩
    rw [hvalue', digitsValue_append, digitsValue_replicate, hvalue, value, he]
    simp [mul_comm]
  | negSucc k =>
    refine ⟨d, ?_, rfl⟩
    by_cases hlt : k + 1 < ds.length
    · -- the point stands among the digits
      have hsplit : d.split = (ds.take (ds.length - (k + 1)), ds.drop (ds.length - (k + 1))) := by
        simp only [split, he, hdigits, if_pos hlt]
      have hwhole : ds.take (ds.length - (k + 1)) ≠ [] := by
        rw [← List.length_pos_iff, List.length_take]
        omega
      have hfraction : ds.drop (ds.length - (k + 1)) ≠ [] := by
        rw [← List.length_pos_iff, List.length_drop]
        omega
      refine pointed_of_split hsplit hwhole hfraction ?_ ?_ ?_
      · rwa [List.take_append_drop]
      · rwa [List.take_append_drop]
      · rw [he, List.length_drop]
        omega
    · -- the point stands before them, and zeros fill the gap
      have hsplit : d.split = (['0'], List.replicate (k + 1 - ds.length) '0' ++ ds) := by
        simp only [split, he, hdigits, if_neg hlt]
      refine pointed_of_split hsplit (by simp) (by simp [hne]) ?_ ?_ ?_
      · rw [← List.append_assoc, ← List.replicate_one, ← List.replicate_add]
        exact List.forall_mem_append.2 ⟨hzeros _, hds⟩
      · rw [← List.append_assoc, ← List.replicate_one, ← List.replicate_add, digitsValue_append,
          digitsValue_replicate, hvalue, Nat.mul_zero, Nat.zero_add]
      · rw [he, List.length_append, List.length_replicate]
        omega

end Decimal

namespace Binary64

theorem withPoint_eq {x : Binary64} (hx : x.isFinite = true) (hs : x.negative = false) :
    x.withPoint = if x.isIntegral then Decimal.digits (x.ratio.1 / x.ratio.2) ++ ['.', '0']
      else (Decimal.shortest .up x).pointed := by
  have hdef : x.withPoint =
      if !x.isFinite then x.specialText
      else if x.isIntegral then
        if x.negative then '-' :: (Decimal.digits (x.ratio.1 / x.ratio.2) ++ ['.', '0'])
        else Decimal.digits (x.ratio.1 / x.ratio.2) ++ ['.', '0']
      else if x.negative then '-' :: (Decimal.shortest .up x).pointed else (Decimal.shortest .up x).pointed := rfl
  rw [hdef, hx, hs]
  simp only [Bool.not_true, Bool.false_eq_true, ↓reduceIte]

/-- The text of a finite number that is not negative denotes a decimal that reads back. -/
theorem pointed_withPoint {x : Binary64} (hx : x.isFinite = true) (hs : x.negative = false) :
    ∃ d, Decimal.Pointed x.withPoint d ∧ Decimal.readsBack x d = true := by
  rw [withPoint_eq hx hs]
  split
  · rename_i hintegral
    obtain ⟨d, hd, hvalue⟩ := Decimal.pointed_integer (Decimal.digits_ne_nil (x.ratio.1 / x.ratio.2))
      fun c hc => Decimal.isDigit_of_mem_digits hc
    refine ⟨d, hd, Decimal.readsBack_of_value_eq hx ?_⟩
    have hdvd : x.ratio.2 ∣ x.ratio.1 := Nat.dvd_of_mod_eq_zero (of_decide_eq_true hintegral)
    have hden : (x.ratio.2 : ℚ) ≠ 0 := by
      have hpos := x.ratio_pos
      positivity
    rw [hvalue, Decimal.digitsValue_digits, value, Nat.cast_div hdvd hden]
  · obtain ⟨d, hd, hvalue⟩ := Decimal.pointed_layout (Decimal.shortest .up x)
    refine ⟨d, hd, ?_⟩
    rw [Decimal.readsBack_congr hx hvalue]
    exact Decimal.readsBack_shortest hx .up

theorem ofMagnitude_magnitude {x : Binary64} (hs : x.negative = false) : ofMagnitude false x.magnitude = x := by
  have hlt : x.bits.toNat < signBit := by
    have hle := of_decide_eq_false hs
    omega
  rw [ofMagnitude, magnitude, Nat.mod_eq_of_lt hlt]
  simp

end Binary64

/-- A finite double that is not negative is read back from its text. -/
theorem readFloat?_withPoint {x : Binary64} (hx : x.isFinite = true) (hs : x.negative = false) :
    readFloat? (String.ofList x.withPoint) = some x := by
  obtain ⟨d, hd, hreads⟩ := Binary64.pointed_withPoint hx hs
  have hmagnitude : Binary64.nearestDecimal d.coefficient d.exponent = x.magnitude := by
    simpa [Decimal.readsBack] using hreads
  have hlt : x.magnitude < Binary64.infinite := of_decide_eq_true hx
  simp only [readFloat?, String.toList_ofList, hd.signed?, Option.bind_some, Binary64.ofDecimal?, hmagnitude, hlt,
    ↓reduceIte, Binary64.ofMagnitude_magnitude hs]

end SinglePass
