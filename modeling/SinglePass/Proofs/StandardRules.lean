import SinglePass.Lexer.Rule
import SinglePass.Proofs.Claiming

/-!
# The rules of the standard table

Strings start with a quote, and the matches of every other rule are made of characters of one class (`startsWith`).
Most of these classes exclude each other, so that a rule has few rivals: decimals and digits are rivals of each other,
and so are the boolean words and the letters (`mem_rivals`).  A rule matches nowhere in a text without characters of its
class (`StartsIn.skips`), and nothing beyond a place where its class ends (`MadeOf.stays`).

The table itself is made from written patterns, provided that these are understood as they are meant
(`Rule.makeAll_standardTexts`).
-/

namespace SinglePass

/-! ### Written rules -/

namespace Rule

variable {compile : String → Except String Pattern} {table : List (Token.Kind × String)} {rules : List Rule}

/-- The patterns of the table are understood as those of the rules. -/
def Understood (compile : String → Except String Pattern) (table : List (Token.Kind × String)) (rules : List Rule) :
    Prop :=
  List.Forall₂ (fun w r => r.kind = w.1 ∧ compile w.2 = .ok r.pattern) table rules

theorem makeAll_append (h : Understood compile table rules) (more : List (Token.Kind × String)) :
    makeAll compile (table ++ more) = (makeAll compile more).map (rules ++ ·) := by
  induction h with
  | nil => cases hmore : makeAll compile more <;> simp [hmore, Except.map]
  | @cons w r table rules hw _ ih =>
    have hmake : make compile w.1 w.2 = .ok r := by
      rw [make, hw.2, ← hw.1]
    rw [List.cons_append, makeAll, List.mapM_cons, hmake]
    show (makeAll compile (table ++ more) >>= fun rest => .ok (r :: rest)) = _
    rw [ih]
    cases makeAll compile more <;> rfl

theorem makeAll_of_understood (h : Understood compile table rules) : makeAll compile table = .ok rules := by
  have happend := makeAll_append h []
  rw [List.append_nil] at happend
  rw [happend, makeAll, List.mapM_nil]
  simp [pure, Except.pure, Except.map]

/-- The first pattern that is not understood is the error, with the kind of its rule and the reason. -/
theorem makeAll_of_refused (h : Understood compile table rules) {w : Token.Kind × String} {reason : String}
    (hw : compile w.2 = .error reason) (more : List (Token.Kind × String)) :
    makeAll compile (table ++ w :: more) = .error (.badRule w.1 reason) := by
  have hmake : make compile w.1 w.2 = .error (.badRule w.1 reason) := by
    rw [make, hw]
  rw [makeAll_append h, makeAll, List.mapM_cons, hmake]
  rfl

/-- If the written patterns of the language are understood as they are meant, making the rules gives the standard
table. -/
theorem makeAll_standardTexts (h : ∀ p ∈ standardTexts.zip standard, compile p.1.2 = .ok p.2.pattern) :
    makeAll compile standardTexts = .ok standard := by
  refine makeAll_of_understood (List.forall₂_iff_zip.2 ⟨rfl, fun {w r} hp => ⟨?_, h (w, r) hp⟩⟩)
  have hkinds : ∀ p ∈ standardTexts.zip standard, p.2.kind = p.1.1 := by
    simp [standardTexts, standard]
  exact hkinds (w, r) hp

end Rule

/-! ### Classes of characters -/

theorem isDigit_iff {c : Char} : c.isDigit = true ↔ 48 ≤ c.toNat ∧ c.toNat ≤ 57 := by
  simp [Char.isDigit, UInt32.le_iff_toNat_le]

theorem isLetter_iff {c : Char} :
    Pattern.isLetter c = true ↔ (97 ≤ c.toNat ∧ c.toNat ≤ 122) ∨ (65 ≤ c.toNat ∧ c.toNat ≤ 90) := by
  simp [Pattern.isLetter, Char.isLower, Char.isUpper, UInt32.le_iff_toNat_le]

theorem toNat_of_isBlank {c : Char} (h : Text.isBlank c = true) : c.toNat ≤ 32 ∨ 133 ≤ c.toNat := by
  simp only [Text.isBlank, Text.inRanges, Text.blankRanges, List.any_cons, List.any_nil, Bool.or_eq_true,
    Bool.and_eq_true, decide_eq_true_eq, Bool.or_false] at h
  omega

theorem isWordChar_of_isLetter {c : Char} (h : Pattern.isLetter c = true) : Text.isWordChar c = true := by
  rw [Text.isWordChar, Text.inRanges, List.any_eq_true]
  rcases isLetter_iff.1 h with h | h
  · exact ⟨(0x61, 0x7A), .tail _ (.tail _ (.tail _ (.head _))), by simpa using h⟩
  · exact ⟨(0x41, 0x5A), .tail _ (.head _), by simpa using h⟩

/-- The characters with which the matches of a kind start. -/
def startsWith : Token.Kind → Char → Bool
  | .string => (· == '"')
  | .float => fun c => c.isDigit || c == '.'
  | .int => Char.isDigit
  | .bool | .identifier => Pattern.isLetter
  | .openParen => (· == '(')
  | .closeParen => (· == ')')
  | .openBracket => (· == '[')
  | .closeBracket => (· == ']')
  | .whitespace => Text.isBlank

private theorem toNat_of_startsWith {c : Char} {kind : Token.Kind} (h : startsWith kind c = true) : match kind with
    | .string => c.toNat = 34
    | .float => c.toNat = 46 ∨ (48 ≤ c.toNat ∧ c.toNat ≤ 57)
    | .int => 48 ≤ c.toNat ∧ c.toNat ≤ 57
    | .bool | .identifier => (97 ≤ c.toNat ∧ c.toNat ≤ 122) ∨ (65 ≤ c.toNat ∧ c.toNat ≤ 90)
    | .openParen => c.toNat = 40
    | .closeParen => c.toNat = 41
    | .openBracket => c.toNat = 91
    | .closeBracket => c.toNat = 93
    | .whitespace => c.toNat ≤ 32 ∨ 133 ≤ c.toNat := by
  cases kind <;> simp only [startsWith, beq_iff_eq, Bool.or_eq_true] at h ⊢
  case float =>
    rcases h with h | rfl
    · exact .inr (isDigit_iff.1 h)
    · exact .inl rfl
  case int => exact isDigit_iff.1 h
  case bool | identifier => exact isLetter_iff.1 h
  case whitespace => exact toNat_of_isBlank h
  all_goals rw [h]; rfl

/-- The kinds whose matches can start with the same characters as those of a kind. -/
def rivals : Token.Kind → List Token.Kind
  | .float | .int => [.float, .int]
  | .bool | .identifier => [.bool, .identifier]
  | kind => [kind]

theorem mem_rivals {c : Char} {kind kind' : Token.Kind} (h : startsWith kind c = true)
    (h' : startsWith kind' c = true) : kind' ∈ rivals kind := by
  have hn := toNat_of_startsWith h
  have hn' := toNat_of_startsWith h'
  cases kind <;> cases kind' <;> simp only at hn hn' <;>
    first | omega | simp [rivals]

/-! ### Patterns and their characters -/

namespace Pattern

variable {p : Pattern} {s : Char → Bool} {before : Option Char} {u v : List Char}

/-- Every match starts with such a character. -/
def StartsIn (p : Pattern) (s : Char → Bool) : Prop :=
  ∀ before c cs, p.matchLength before (c :: cs) ≠ 0 → s c = true

/-- Every match is made of such characters. -/
def MadeOf (p : Pattern) (s : Char → Bool) : Prop :=
  ∀ before cs, ∃ w rest, cs = w ++ rest ∧ p.matchLength before cs = w.length ∧ ∀ c ∈ w, s c = true

theorem MadeOf.startsIn (h : p.MadeOf s) : p.StartsIn s := by
  intro before c cs hne
  obtain ⟨w, rest, hcs, hlen, hw⟩ := h before (c :: cs)
  cases w with
  | nil => exact absurd hlen hne
  | cons d w =>
    rw [List.cons_append, List.cons.injEq] at hcs
    rw [hcs.1]
    exact hw d (by simp)

theorem StartsIn.skips (h : p.StartsIn s) (hu : ∀ c ∈ u, s c = false) : p.Skips before u v := by
  intro a b hab hb
  obtain ⟨c, b, rfl⟩ := List.exists_cons_of_ne_nil hb
  by_contra hne
  have hs := h _ c (b ++ v) hne
  rw [hu c (by simp [hab])] at hs
  cases hs

/-- A match does not reach beyond `u` if the last character of `u`, or the first behind it, cannot be part of it. -/
theorem MadeOf.stays (h : p.MadeOf s) (hend : (∀ c ∈ u.getLast?, s c = false) ∨ ∀ c ∈ v.head?, s c = false) :
    p.Stays before u v := by
  intro a b hab hb
  obtain ⟨w, rest, hcs, hlen, hw⟩ := h (a.getLast?.or before) (b ++ v)
  rw [hlen]
  by_contra hlt
  rcases List.append_eq_append_iff.1 hcs with ⟨more, rfl, rfl⟩ | ⟨more, rfl, -⟩
  · rcases hend with hend | hend
    · have hlast : b.getLast hb ∈ u.getLast? := by
        rw [hab, List.getLast?_append, List.getLast?_eq_some_getLast hb]
        rfl
      have hs := hw (b.getLast hb) (by simp)
      rw [hend _ hlast] at hs
      cases hs
    · cases more with
      | nil => simp at hlt
      | cons d more =>
        have hs := hw d (by simp)
        rw [hend d (by simp)] at hs
        cases hs
  · simp at hlt

theorem madeOf_run (s : Char → Bool) : (run s).MadeOf s := by
  intro before cs
  refine ⟨cs.takeWhile s, cs.dropWhile s, List.takeWhile_append_dropWhile.symm, matchLength_ofLength _ _ _, ?_⟩
  exact fun c hc => List.mem_takeWhile_imp hc

theorem madeOf_single (s : Char → Bool) : (single s).MadeOf s := by
  intro before cs
  cases cs with
  | nil => exact ⟨[], [], rfl, by simp [single], by simp⟩
  | cons c cs =>
    by_cases hc : s c = true
    · exact ⟨[c], cs, rfl, by simp [single, hc], by simpa using hc⟩
    · exact ⟨[], c :: cs, rfl, by simp [single, hc], by simp⟩

theorem madeOf_decimal : decimal.MadeOf fun c => c.isDigit || c == '.' := by
  intro before cs
  cases hrest : cs.dropWhile Char.isDigit with
  | nil => exact ⟨[], cs, rfl, by simp [decimal, hrest], by simp⟩
  | cons c rest =>
    by_cases hc : c = '.'
    · subst hc
      by_cases hempty : cs.takeWhile Char.isDigit = [] ∧ rest.takeWhile Char.isDigit = []
      · refine ⟨[], cs, rfl, ?_, by simp⟩
        simp only [decimal, matchLength_ofLength, hrest, hempty, and_self, ↓reduceIte, List.length_nil]
      · refine ⟨cs.takeWhile Char.isDigit ++ '.' :: rest.takeWhile Char.isDigit, rest.dropWhile Char.isDigit, ?_, ?_,
          ?_⟩
        · rw [List.append_assoc, List.cons_append, List.takeWhile_append_dropWhile, ← hrest,
            List.takeWhile_append_dropWhile]
        · simp only [decimal, matchLength_ofLength, hrest, hempty, ↓reduceIte, List.length_append, List.length_cons]
          omega
        · intro d hd
          rcases List.mem_append.1 hd with hd | hd
          · simp [List.mem_takeWhile_imp hd]
          · rcases List.mem_cons.1 hd with rfl | hd
            · rfl
            · simp [List.mem_takeWhile_imp hd]
    · refine ⟨[], cs, rfl, ?_, by simp⟩
      simp only [decimal, matchLength_ofLength, hrest]
      split
      · rename_i heq
        exact absurd (List.cons.inj heq).1 hc
      · rfl

/-- What a match of one of several words looks like. -/
theorem word_cases (ws : List (List Char)) (before : Option Char) (cs : List Char) :
    (word ws).matchLength before cs = 0 ∨ ∃ w ∈ ws, ∃ rest, cs = w ++ rest ∧
      (word ws).matchLength before cs = w.length ∧ before.any Text.isWordChar = false ∧
      rest.head?.any Text.isWordChar = false := by
  simp only [word, matchLength_ofLength]
  split
  · exact .inl rfl
  · rename_i hb
    cases hfind : ws.find? fun w => w.isPrefixOf cs && !((cs.drop w.length).head?.any Text.isWordChar) with
    | none => exact .inl rfl
    | some w =>
      right
      have hfits := List.find?_some hfind
      simp only [Bool.and_eq_true, List.isPrefixOf_iff_prefix, Bool.not_eq_true'] at hfits
      obtain ⟨⟨rest, rfl⟩, hafter⟩ := hfits
      rw [List.drop_left] at hafter
      exact ⟨w, List.mem_of_find?_eq_some hfind, rest, rfl, rfl, by simpa using hb, hafter⟩

theorem madeOf_word {ws : List (List Char)} (h : ∀ w ∈ ws, ∀ c ∈ w, s c = true) : (word ws).MadeOf s := by
  intro before cs
  rcases word_cases ws before cs with hzero | ⟨w, hw, rest, hcs, hlen, -, -⟩
  · exact ⟨[], cs, rfl, hzero, by simp⟩
  · exact ⟨w, rest, hcs, hlen, h w hw⟩

theorem startsIn_quoted : quoted.StartsIn (· == '"') := by
  intro before c cs hne
  by_contra hc
  apply hne
  simp only [quoted, matchLength_ofLength]
  split
  · rename_i heq
    exact absurd (by rw [(List.cons.inj heq).1]; rfl) hc
  · rfl

end Pattern

/-- The boolean words. -/
def words : List (List Char) := ["true".toList, "false".toList]

theorem words_eq : words = [['t', 'r', 'u', 'e'], ['f', 'a', 'l', 's', 'e']] := by
  simp [words]

theorem isLetter_of_mem_words {w : List Char} (hw : w ∈ words) : ∀ c ∈ w, Pattern.isLetter c = true := by
  rw [words_eq] at hw
  simp only [List.mem_cons, List.not_mem_nil, or_false] at hw
  rcases hw with rfl | rfl <;> simp [isLetter_iff]

theorem madeOf_standard {r : Rule} (hr : r ∈ Rule.standard) (hs : r.kind ≠ .string) :
    r.pattern.MadeOf (startsWith r.kind) := by
  simp only [Rule.standard, List.mem_cons, List.not_mem_nil, or_false] at hr
  rcases hr with rfl | rfl | rfl | rfl | rfl | rfl | rfl | rfl | rfl | rfl
  · exact absurd rfl hs
  · exact Pattern.madeOf_decimal
  · exact Pattern.madeOf_run _
  · exact Pattern.madeOf_word fun w hw => isLetter_of_mem_words hw
  · exact Pattern.madeOf_run _
  · exact Pattern.madeOf_single _
  · exact Pattern.madeOf_single _
  · exact Pattern.madeOf_single _
  · exact Pattern.madeOf_single _
  · exact Pattern.madeOf_run _

theorem startsIn_standard {r : Rule} (hr : r ∈ Rule.standard) : r.pattern.StartsIn (startsWith r.kind) := by
  by_cases hs : r.kind = .string
  · simp only [Rule.standard, List.mem_cons, List.not_mem_nil, or_false] at hr
    rcases hr with rfl | rfl | rfl | rfl | rfl | rfl | rfl | rfl | rfl | rfl
    · exact Pattern.startsIn_quoted
    all_goals cases hs
  · exact (madeOf_standard hr hs).startsIn

end SinglePass
