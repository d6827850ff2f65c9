import SinglePass.Proofs.StandardRules

/-!
# Shapes of tokens

`Shape` lists the texts that are taken as tokens, with what has to stand around them.  Each of them is claimed by the
rule of its kind (`Shape.claimed`): the rules before that one match nowhere in it and those behind it do not reach
beyond its end.  The classes of characters leave two things to be shown, that a run of digits without a point behind it
holds no decimal, and that a run of letters that is no boolean word of its own holds none (`word_skips`).
-/

namespace SinglePass

/-! ### Tokens and the rules that claim them -/

namespace Lexer.OnePass

/-- The texts that are taken as tokens, in front of `v` and behind a character. -/
inductive Shape (before : Option Char) (v : List Char) : Token.Kind → List Char → Prop
  | string {body : List Char} : (∀ c ∈ body, c ≠ '"') → Shape before v .string ('"' :: (body ++ ['"']))
  | float {whole fraction : List Char} : (∀ c ∈ whole, c.isDigit = true) → (∀ c ∈ fraction, c.isDigit = true) →
      ¬(whole = [] ∧ fraction = []) → (∀ c ∈ v.head?, c.isDigit = false) →
      Shape before v .float (whole ++ '.' :: fraction)
  | int {u : List Char} : u ≠ [] → (∀ c ∈ u, c.isDigit = true) → (∀ c ∈ v.head?, c.isDigit = false ∧ c ≠ '.') →
      Shape before v .int u
  | bool {u : List Char} : u ∈ words → before.any Text.isWordChar = false → v.head?.any Text.isWordChar = false →
      Shape before v .bool u
  | identifier {u : List Char} : u ≠ [] → (∀ c ∈ u, Pattern.isLetter c = true) →
      (∀ c ∈ v.head?, Pattern.isLetter c = false) →
      ¬(u ∈ words ∧ before.any Text.isWordChar = false ∧ v.head?.any Text.isWordChar = false) →
      Shape before v .identifier u
  | openParen : Shape before v .openParen ['(']
  | closeParen : Shape before v .closeParen [')']
  | openBracket : Shape before v .openBracket ['[']
  | closeBracket : Shape before v .closeBracket [']']
  | whitespace {u : List Char} : u ≠ [] → (∀ c ∈ u, Text.isBlank c = true) → (∀ c ∈ v.head?, Text.isBlank c = false) →
      Shape before v .whitespace u

section

variable {before : Option Char} {u v : List Char} {offset : Nat}

/-- The text `u` is the first token of the standard table, and the rest is treated as if it stood alone. -/
def Claimed (before : Option Char) (v : List Char) (kind : Token.Kind) (u : List Char) : Prop :=
  ∀ offset, survivorsFrom Rule.standard offset before (u ++ v) =
    ⟨kind, String.ofList u, offset⟩ ::
      survivorsFrom Rule.standard (offset + byteSize u) (u.getLast?.or before) v

/-- Only rules whose matches start with the same characters have to be compared. -/
theorem claimed_of_rivals (stronger : List Rule) (r : Rule) (weaker : List Rule)
    (hrules : Rule.standard = stronger ++ r :: weaker) (hu : u ≠ []) (hstart : ∀ c ∈ u, startsWith r.kind c = true)
    (hmatch : r.pattern.matchLength before (u ++ v) = u.length)
    (hskips : ∀ q ∈ stronger, q.kind ∈ rivals r.kind → q.pattern.Skips before u v)
    (hstays : ∀ q ∈ weaker, q.kind ∈ rivals r.kind → q.pattern.Stays before u v) : Claimed before v r.kind u := by
  have hothers : ∀ q ∈ Rule.standard, q.kind ∉ rivals r.kind → q.pattern.Skips before u v := by
    intro q hq hk
    refine (startsIn_standard hq).skips fun c hc => ?_
    rw [← Bool.not_eq_true]
    exact fun hs => hk (mem_rivals (hstart c hc) hs)
  intro offset
  rw [hrules] at hothers ⊢
  refine survivorsFrom_eq_cons stronger r weaker hu (fun q hq => ?_) hmatch fun q hq => ?_
  · by_cases hk : q.kind ∈ rivals r.kind
    · exact hskips q hq hk
    · exact hothers q (by simp [hq]) hk
  · by_cases hk : q.kind ∈ rivals r.kind
    · exact hstays q hq hk
    · exact (hothers q (by simp [hq]) hk).stays

theorem matchLength_run {s : Char → Bool} (hu : ∀ c ∈ u, s c = true) (hv : ∀ c ∈ v.head?, s c = false) :
    (Pattern.run s).matchLength before (u ++ v) = u.length := by
  rw [Pattern.run, Pattern.matchLength_ofLength, takeWhile_append_of_ends hu hv]

theorem claimed_string {body : List Char} (hbody : ∀ c ∈ body, c ≠ '"') :
    Claimed before v .string ('"' :: (body ++ ['"'])) := by
  have htake : (body ++ '"' :: v).takeWhile (· ≠ '"') = body :=
    takeWhile_append_of_ends (by simpa using hbody) (by simp)
  intro offset
  refine survivorsFrom_eq_cons [] ⟨.string, .quoted⟩ Rule.standard.tail (by simp) (by simp) ?_ ?_
  · simp only [Pattern.quoted, Pattern.matchLength_ofLength, List.cons_append, List.append_assoc,
      List.nil_append, htake]
    simp
  · -- no other rule has a match with a quote in it
    intro q hq
    have hs : q.kind ≠ .string := by
      simp only [Rule.standard, List.tail_cons, List.mem_cons, List.not_mem_nil, or_false] at hq
      rcases hq with rfl | rfl | rfl | rfl | rfl | rfl | rfl | rfl | rfl <;> simp
    refine (madeOf_standard (List.mem_of_mem_tail hq) hs).stays (.inl fun c hc => ?_)
    have hquote : c = '"' := by
      rw [← List.cons_append, List.getLast?_concat] at hc
      simpa using hc.symm
    rw [← Bool.not_eq_true, hquote]
    intro hstart
    have hrival : q.kind ∈ rivals .string := mem_rivals (c := '"') rfl hstart
    exact hs (by simpa [rivals] using hrival)

theorem claimed_float {whole fraction : List Char} (hw : ∀ c ∈ whole, c.isDigit = true)
    (hf : ∀ c ∈ fraction, c.isDigit = true) (hne : ¬(whole = [] ∧ fraction = []))
    (hv : ∀ c ∈ v.head?, c.isDigit = false) : Claimed before v .float (whole ++ '.' :: fraction) := by
  refine claimed_of_rivals (Rule.standard.take 1) ⟨.float, .decimal⟩ (Rule.standard.drop 2) rfl (by simp) ?_ ?_ ?_ ?_
  · intro c hc
    rcases List.mem_append.1 hc with hc | hc
    · simp [startsWith, hw c hc]
    · rcases List.mem_cons.1 hc with rfl | hc
      · rfl
      · simp [startsWith, hf c hc]
  · have hpoint : ∀ c ∈ ('.' :: (fraction ++ v)).head?, c.isDigit = false := by simp
    rw [List.append_assoc, List.cons_append]
    simp only [Pattern.decimal, Pattern.matchLength_ofLength, takeWhile_append_of_ends hw hpoint,
      dropWhile_append_of_ends hw hpoint, takeWhile_append_of_ends hf hv, hne, ↓reduceIte, List.length_append,
      List.length_cons]
    omega
  · simp [Rule.standard, rivals]
  · have hint : (Pattern.run Char.isDigit).Stays before (whole ++ '.' :: fraction) v :=
      (Pattern.madeOf_run _).stays (.inr hv)
    simpa [Rule.standard, rivals] using hint

/-- A decimal needs a point, and none follows the digits. -/
theorem claimed_int (hne : u ≠ []) (hu : ∀ c ∈ u, c.isDigit = true)
    (hv : ∀ c ∈ v.head?, c.isDigit = false ∧ c ≠ '.') : Claimed before v .int u := by
  have hdigit : ∀ c ∈ v.head?, c.isDigit = false := fun c hc => (hv c hc).1
  refine claimed_of_rivals (Rule.standard.take 2) ⟨.int, .run Char.isDigit⟩ (Rule.standard.drop 3) rfl hne hu
    (matchLength_run hu hdigit) ?_ ?_
  · have hdecimal : Pattern.decimal.Skips before u v := by
      intro a b hab hb
      have hdrop : (b ++ v).dropWhile Char.isDigit = v :=
        dropWhile_append_of_ends (fun c hc => hu c (by simp [hab, hc])) hdigit
      simp only [Pattern.decimal, Pattern.matchLength_ofLength, hdrop]
      split
      · exact absurd rfl (hv '.' rfl).2
      · rfl
    simpa [Rule.standard, rivals] using hdecimal
  · simp [Rule.standard, rivals]

theorem not_letter_of_not_word (hv : v.head?.any Text.isWordChar = false) :
    ∀ c ∈ v.head?, Pattern.isLetter c = false := by
  intro c hc
  rw [← Bool.not_eq_true]
  intro hl
  rw [Option.mem_def.1 hc] at hv
  simp [isWordChar_of_isLetter hl] at hv

theorem claimed_bool (hu : u ∈ words) (hb : before.any Text.isWordChar = false)
    (hv : v.head?.any Text.isWordChar = false) : Claimed before v .bool u := by
  have hletters := isLetter_of_mem_words hu
  refine claimed_of_rivals (Rule.standard.take 3) ⟨.bool, .word words⟩ (Rule.standard.drop 4) rfl ?_ hletters ?_ ?_ ?_
  · rintro rfl
    simp [words_eq] at hu
  · rw [List.head?_eq_getElem?] at hv
    rw [words_eq] at hu ⊢
    simp only [List.mem_cons, List.not_mem_nil, or_false] at hu
    rcases hu with rfl | rfl <;> simp [Pattern.word, hb, hv, List.find?_cons, List.isPrefixOf]
  · simp [Rule.standard, rivals]
  · have hidentifier : (Pattern.run Pattern.isLetter).Stays before u v :=
      (Pattern.madeOf_run _).stays (.inr (not_letter_of_not_word hv))
    simpa [Rule.standard, rivals] using hidentifier

/-- Inside a run of letters no boolean word stands alone, so that only the whole run could be one. -/
theorem word_skips (hu : ∀ c ∈ u, Pattern.isLetter c = true) (hv : ∀ c ∈ v.head?, Pattern.isLetter c = false)
    (hno : ¬(u ∈ words ∧ before.any Text.isWordChar = false ∧ v.head?.any Text.isWordChar = false)) :
    (Pattern.word words).Skips before u v := by
  intro a b hab hb
  rcases Pattern.word_cases words (a.getLast?.or before) (b ++ v) with hzero | ⟨w, hw, rest, hcs, -, hbefore, hafter⟩
  · exact hzero
  exfalso
  have hletters := isLetter_of_mem_words hw
  -- the word cannot start behind another letter
  have hnil : a = [] := by
    by_contra hne
    have hlast : Pattern.isLetter (a.getLast hne) = true := hu _ (by simp [hab])
    rw [List.getLast?_eq_some_getLast hne] at hbefore
    simp [isWordChar_of_isLetter hlast] at hbefore
  subst hnil
  obtain rfl : u = b := hab
  -- nor end before another one, nor go on behind the letters
  rcases List.append_eq_append_iff.1 hcs with ⟨more, hmore, hv'⟩ | ⟨more, hmore, hrest⟩
  · cases more with
    | nil =>
      rw [List.append_nil] at hmore
      subst hmore
      rw [List.nil_append] at hv'
      exact hno ⟨hw, by simpa using hbefore, by rwa [hv']⟩
    | cons d more =>
      have hd := hv d (by simp [hv'])
      rw [hletters d (by simp [hmore])] at hd
      cases hd
  · cases more with
    | nil =>
      rw [List.append_nil] at hmore
      subst hmore
      rw [List.nil_append] at hrest
      exact hno ⟨hw, by simpa using hbefore, by rwa [← hrest]⟩
    | cons d more =>
      have hd := hu d (by simp [hmore])
      simp [hrest, isWordChar_of_isLetter hd] at hafter

theorem claimed_identifier (hne : u ≠ []) (hu : ∀ c ∈ u, Pattern.isLetter c = true)
    (hv : ∀ c ∈ v.head?, Pattern.isLetter c = false)
    (hno : ¬(u ∈ words ∧ before.any Text.isWordChar = false ∧ v.head?.any Text.isWordChar = false)) :
    Claimed before v .identifier u := by
  refine claimed_of_rivals (Rule.standard.take 4) ⟨.identifier, .run Pattern.isLetter⟩ (Rule.standard.drop 5) rfl hne hu
    (matchLength_run hu hv) ?_ ?_
  · have hword := word_skips hu hv hno
    simpa [Rule.standard, rivals, words] using hword
  · simp [Rule.standard, rivals]

/-- A delimiter has no rivals. -/
theorem claimed_delimiter (stronger : List Rule) (kind : Token.Kind) (c : Char) (weaker : List Rule)
    (hrules : Rule.standard = stronger ++ ⟨kind, .single (· == c)⟩ :: weaker) (hstart : startsWith kind c = true)
    (hrivals : rivals kind = [kind]) (hothers : ∀ q ∈ stronger ++ weaker, q.kind ≠ kind) :
    Claimed before v kind [c] := by
  refine claimed_of_rivals stronger ⟨kind, .single (· == c)⟩ weaker hrules (by simp) (by simpa using hstart)
    (by simp [Pattern.single]) (fun q hq hk => ?_) fun q hq hk => ?_
  · exact absurd (by simpa [hrivals] using hk) (hothers q (by simp [hq]))
  · exact absurd (by simpa [hrivals] using hk) (hothers q (by simp [hq]))

/-- A text of one of the listed shapes is claimed by the rule of its kind. -/
theorem Shape.claimed {kind : Token.Kind} (h : Shape before v kind u) : Claimed before v kind u := by
  cases h with
  | string hbody => exact claimed_string hbody
  | float hw hf hne hv => exact claimed_float hw hf hne hv
  | int hne hu hv => exact claimed_int hne hu hv
  | bool hu hb hv => exact claimed_bool hu hb hv
  | identifier hne hu hv hno => exact claimed_identifier hne hu hv hno
  | openParen =>
    exact claimed_delimiter (Rule.standard.take 5) .openParen '(' (Rule.standard.drop 6) rfl rfl rfl
      (by simp [Rule.standard])
  | closeParen =>
    exact claimed_delimiter (Rule.standard.take 6) .closeParen ')' (Rule.standard.drop 7) rfl rfl rfl
      (by simp [Rule.standard])
  | openBracket =>
    exact claimed_delimiter (Rule.standard.take 7) .openBracket '[' (Rule.standard.drop 8) rfl rfl rfl
      (by simp [Rule.standard])
  | closeBracket =>
    exact claimed_delimiter (Rule.standard.take 8) .closeBracket ']' (Rule.standard.drop 9) rfl rfl rfl
      (by simp [Rule.standard])
  | whitespace hne hu hv =>
    exact claimed_of_rivals (Rule.standard.take 9) ⟨.whitespace, .run Text.isBlank⟩ [] rfl hne hu
      (matchLength_run hu hv) (by simp [Rule.standard, rivals]) (by simp)

theorem Shape.ne_nil {kind : Token.Kind} (h : Shape before v kind u) : u ≠ [] := by
  cases h with
  | int hne _ _ | identifier hne _ _ _ | whitespace hne _ _ => exact hne
  | bool hu _ _ =>
    rintro rfl
    simp [words_eq] at hu
  | string | float | openParen | closeParen | openBracket | closeBracket => simp

end

end Lexer.OnePass

end SinglePass
