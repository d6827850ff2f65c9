import SinglePass.Lexer.OnePass
import SinglePass.Proofs.Shapes
import SinglePass.Proofs.Survivors

/-!
# The standard table in one pass

The rules of the standard table, each matched over the whole source and claiming in order, give the same tokens and the
same error as reading the source once from left to right.  What the one-pass lexer takes as the next token has one of
the listed shapes, so the table claims it too (`shape_of_next?`); and where it takes nothing, no rule matches
(`matchLength_of_next?_eq_none`), so the table leaves the same character unclaimed.
-/

namespace SinglePass

namespace Lexer.OnePass

section

variable {before : Option Char} {u v : List Char} {offset : Nat}

/-! ### The next token -/

variable {c : Char} {cs : List Char}

theorem startsWith_eq_false (kind kind' : Token.Kind) (h : startsWith kind c = true) (hk : kind' ∉ rivals kind) :
    startsWith kind' c = false := by
  rw [← Bool.not_eq_true]
  exact fun h' => hk (mem_rivals h h')

theorem next?_of_quote : next? before ('"' :: cs) = (stringLength cs).map fun n => (.string, n) := by
  rw [next?, if_pos rfl]

theorem next?_of_point : next? before ('.' :: cs) =
    if (cs.takeWhile Char.isDigit).length = 0 then none
    else some (.float, (cs.takeWhile Char.isDigit).length + 1) := by
  rw [next?, if_neg (by decide), if_neg (by decide), if_pos rfl]

theorem next?_of_digit (hc : c.isDigit = true) : next? before (c :: cs) = some (number (c :: cs)) := by
  have hquote : (c == '"') = false := startsWith_eq_false .int .string hc (by simp [rivals])
  rw [next?, if_neg (by simpa using hquote), if_pos hc]

theorem next?_of_letter (hc : Pattern.isLetter c = true) : next? before (c :: cs) = some (word before (c :: cs)) := by
  have hquote : (c == '"') = false := startsWith_eq_false .identifier .string hc (by simp [rivals])
  have hfloat : (c.isDigit || c == '.') = false := startsWith_eq_false .identifier .float hc (by simp [rivals])
  simp only [Bool.or_eq_false_iff, beq_eq_false_iff_ne] at hquote hfloat
  rw [next?, if_neg hquote, if_neg (by simp [hfloat.1]), if_neg hfloat.2, if_pos hc]

theorem next?_of_blank (hc : Text.isBlank c = true) :
    next? before (c :: cs) = some (.whitespace, ((c :: cs).takeWhile Text.isBlank).length) := by
  have hother : ∀ kind, kind ≠ .whitespace → startsWith kind c = false :=
    fun kind hk => startsWith_eq_false .whitespace kind hc (by simpa [rivals] using hk)
  have hquote := hother .string (by simp)
  have hfloat := hother .float (by simp)
  have hletter := hother .identifier (by simp)
  have h₁ := hother .openParen (by simp)
  have h₂ := hother .closeParen (by simp)
  have h₃ := hother .openBracket (by simp)
  have h₄ := hother .closeBracket (by simp)
  simp only [startsWith, Bool.or_eq_false_iff, beq_eq_false_iff_ne] at hquote hfloat hletter h₁ h₂ h₃ h₄
  rw [next?, if_neg hquote, if_neg (by simp [hfloat.1]), if_neg hfloat.2, if_neg (by simp [hletter]), if_neg h₁,
    if_neg h₂, if_neg h₃, if_neg h₄, if_pos hc]

/-- If no rule is able to start a token here, none of them matches. -/
theorem matchLength_of_next?_eq_none (h : next? before (c :: cs) = none) :
    ∀ r ∈ Rule.standard, r.pattern.matchLength before (c :: cs) = 0 := by
  intro r hr
  by_contra hne
  have hstart := startsIn_standard hr before c cs hne
  simp only [Rule.standard, List.mem_cons, List.not_mem_nil, or_false] at hr
  rcases hr with rfl | rfl | rfl | rfl | rfl | rfl | rfl | rfl | rfl | rfl <;>
    simp only [startsWith, beq_iff_eq, Bool.or_eq_true] at hstart
  · subst hstart
    rw [next?_of_quote, Option.map_eq_none_iff] at h
    simp only [stringLength] at h
    simp only [Pattern.quoted, Pattern.matchLength_ofLength] at hne
    split at h
    · cases h
    · rename_i hlen
      exact hne (if_neg hlen)
  · rcases hstart with hd | rfl
    · rw [next?_of_digit hd] at h
      cases h
    · rw [next?_of_point] at h
      split at h
      · rename_i hlen
        have hnil := List.eq_nil_of_length_eq_zero hlen
        exact hne (by simp only [Pattern.decimal, Pattern.matchLength_ofLength, List.takeWhile_cons,
          List.dropWhile_cons, show Char.isDigit '.' = false by decide, Bool.false_eq_true, ↓reduceIte, hnil, and_self])
      · cases h
  · rw [next?_of_digit hstart] at h
    cases h
  · rw [next?_of_letter hstart] at h
    cases h
  · rw [next?_of_letter hstart] at h
    cases h
  · subst hstart
    simp [next?, Pattern.isLetter] at h
  · subst hstart
    simp [next?, Pattern.isLetter] at h
  · subst hstart
    simp [next?, Pattern.isLetter] at h
  · subst hstart
    simp [next?, Pattern.isLetter] at h
  · rw [next?_of_blank hstart] at h
    cases h

theorem exists_quote (h : (cs.takeWhile (· ≠ '"')).length < cs.length) :
    ∃ v, cs = cs.takeWhile (· ≠ '"') ++ '"' :: v := by
  have hsplit : cs.takeWhile (· ≠ '"') ++ cs.dropWhile (· ≠ '"') = cs := List.takeWhile_append_dropWhile
  cases hdrop : cs.dropWhile (· ≠ '"') with
  | nil =>
    have hlen := congrArg List.length hsplit
    rw [List.length_append, hdrop, List.length_nil] at hlen
    omega
  | cons c v =>
    have hc := not_of_mem_head?_dropWhile (· ≠ '"') cs c (by rw [hdrop]; rfl)
    obtain rfl : c = '"' := by simpa using hc
    refine ⟨v, ?_⟩
    rw [← hdrop, hsplit]

theorem shape_of_number (before : Option Char) (cs : List Char) (hc : c.isDigit = true) : ∃ u v, c :: cs = u ++ v ∧
    u.length = (number (c :: cs)).2 ∧ Shape before v (number (c :: cs)).1 u := by
  obtain ⟨hsplit, hdigits, hends⟩ := takeWhile_run Char.isDigit (c :: cs)
  have hne : (c :: cs).takeWhile Char.isDigit ≠ [] := takeWhile_ne_nil cs hc
  unfold number
  simp only
  split
  · rename_i rest hdrop
    obtain ⟨hsplit', hdigits', hends'⟩ := takeWhile_run Char.isDigit rest
    refine ⟨(c :: cs).takeWhile Char.isDigit ++ '.' :: rest.takeWhile Char.isDigit, rest.dropWhile Char.isDigit, ?_, ?_,
      .float hdigits hdigits' (fun h => hne h.1) hends'⟩
    · rw [List.append_assoc, List.cons_append, ← hsplit', ← hdrop]
      exact hsplit
    · rw [List.length_append, List.length_cons]
      omega
  · rename_i hpoint
    refine ⟨(c :: cs).takeWhile Char.isDigit, (c :: cs).dropWhile Char.isDigit, hsplit, rfl, .int hne hdigits ?_⟩
    intro d hd
    refine ⟨hends d hd, ?_⟩
    rintro rfl
    obtain ⟨rest, hrest⟩ := List.head?_eq_some_iff.1 (Option.mem_def.1 hd)
    exact hpoint rest hrest

theorem shape_of_word (before : Option Char) (cs : List Char) (hc : Pattern.isLetter c = true) : ∃ u v,
    c :: cs = u ++ v ∧ u.length = (word before (c :: cs)).2 ∧ Shape before v (word before (c :: cs)).1 u := by
  obtain ⟨hsplit, hletters, hends⟩ := takeWhile_run Pattern.isLetter (c :: cs)
  have hne : (c :: cs).takeWhile Pattern.isLetter ≠ [] := takeWhile_ne_nil cs hc
  refine ⟨(c :: cs).takeWhile Pattern.isLetter, (c :: cs).dropWhile Pattern.isLetter, hsplit, ?_, ?_⟩
  · unfold word
    simp only
    split <;> rfl
  · unfold word
    simp only
    split
    · rename_i h
      exact .bool (by simpa [words] using h.1) (by simpa using h.2.1) (by simpa using h.2.2)
    · rename_i h
      refine .identifier hne hletters hends fun hbool => h ?_
      simpa [words] using hbool

/-- What is taken as the next token has one of the listed shapes. -/
theorem shape_of_next? {kind : Token.Kind} {n : Nat} (h : next? before (c :: cs) = some (kind, n)) :
    ∃ u v, c :: cs = u ++ v ∧ u.length = n ∧ Shape before v kind u := by
  by_cases hquote : c = '"'
  · subst hquote
    rw [next?_of_quote, Option.map_eq_some_iff] at h
    obtain ⟨k, hk, h⟩ := h
    cases h
    simp only [stringLength] at hk
    split at hk
    · rename_i hlt
      cases hk
      obtain ⟨v, hv⟩ := exists_quote hlt
      refine ⟨'"' :: (cs.takeWhile (· ≠ '"') ++ ['"']), v, ?_, by simp, .string fun d hd => ?_⟩
      · rw [List.cons_append, List.append_assoc, List.singleton_append, ← hv]
      · simpa using List.mem_takeWhile_imp hd
    · cases hk
  by_cases hdigit : c.isDigit = true
  · rw [next?_of_digit hdigit, Option.some.injEq] at h
    have hshape := shape_of_number before cs hdigit
    rwa [h] at hshape
  by_cases hpoint : c = '.'
  · subst hpoint
    rw [next?_of_point] at h
    split at h
    · cases h
    · rename_i hlen
      cases h
      obtain ⟨hsplit, hdigits, hends⟩ := takeWhile_run Char.isDigit cs
      refine ⟨'.' :: cs.takeWhile Char.isDigit, cs.dropWhile Char.isDigit, ?_, rfl, ?_⟩
      · rw [List.cons_append, ← hsplit]
      · rw [← List.nil_append ('.' :: _)]
        exact .float (by simp) hdigits (fun hnil => hlen (by rw [hnil.2]; rfl)) hends
  by_cases hletter : Pattern.isLetter c = true
  · rw [next?_of_letter hletter, Option.some.injEq] at h
    have hshape := shape_of_word before cs hletter
    rwa [h] at hshape
  rw [next?, if_neg hquote, if_neg hdigit, if_neg hpoint, if_neg hletter] at h
  split at h
  · rename_i hc
    cases h
    exact ⟨['('], cs, by rw [hc]; rfl, rfl, .openParen⟩
  split at h
  · rename_i hc
    cases h
    exact ⟨[')'], cs, by rw [hc]; rfl, rfl, .closeParen⟩
  split at h
  · rename_i hc
    cases h
    exact ⟨['['], cs, by rw [hc]; rfl, rfl, .openBracket⟩
  split at h
  · rename_i hc
    cases h
    exact ⟨[']'], cs, by rw [hc]; rfl, rfl, .closeBracket⟩
  split at h
  · rename_i hblank
    cases h
    obtain ⟨hsplit, hblanks, hends⟩ := takeWhile_run Text.isBlank (c :: cs)
    exact ⟨_, _, hsplit, rfl, .whitespace (takeWhile_ne_nil cs hblank) hblanks hends⟩
  · cases h

/-! ### The whole source -/

/-- The answer of the rule table from a place on. -/
def tableFrom (offset : Nat) (before : Option Char) (cs : List Char) : Except Error (List Token) :=
  answerFrom offset cs (survivorsFrom Rule.standard offset before cs)

theorem tokenize_eq_tableFrom (source : String) :
    Lexer.tokenize Rule.standard source = tableFrom 0 none source.toList := by
  rw [tokenize_eq, survivors_eq, tableFrom]

theorem tableFrom_nil : tableFrom offset before [] = .ok [] := by
  have hnone : survivorsFrom Rule.standard offset before [] = [] := by
    rw [survivorsFrom, claimFrom_nil]
  rw [tableFrom, hnone]
  rfl

theorem tableFrom_of_next?_eq_none (h : next? before (c :: cs) = none) :
    tableFrom offset before (c :: cs) = .error (.uncovered offset c) := by
  have hlt : ∀ t ∈ survivorsFrom Rule.standard offset before (c :: cs), offset < t.offset :=
    fun t ht => lt_of_mem_survivorsFrom (matchLength_of_next?_eq_none h) ht
  rw [tableFrom, answerFrom, firstUnclaimed_of_lt hlt]

/-- A text of one of the listed shapes is a token of the table, which then answers for the rest. -/
theorem tableFrom_of_shape {kind : Token.Kind} (h : Shape before v kind u) :
    tableFrom offset before (u ++ v) =
      tableFrom (offset + byteSize u) u.getLast? v >>= fun rest => .ok (⟨kind, String.ofList u, offset⟩ :: rest) := by
  have hlast : u.getLast?.or before = u.getLast? := by
    rw [List.getLast?_eq_some_getLast h.ne_nil]
    rfl
  have hclaimed := h.claimed offset
  rw [hlast] at hclaimed
  rw [tableFrom, hclaimed, answerFrom, firstUnclaimed_cons h.ne_nil (le_refl _) (Token.stop_mk _ _ _), tableFrom,
    answerFrom]
  cases firstUnclaimed (offset + byteSize u) v
    (survivorsFrom Rule.standard (offset + byteSize u) u.getLast? v) <;> rfl

/-- From every place on, the table and the one-pass lexer give the same answer. -/
theorem tableFrom_eq_tokensFrom (offset : Nat) (before : Option Char) (cs : List Char) :
    tableFrom offset before cs = tokensFrom offset before cs := by
  fun_induction tokensFrom offset before cs with
  | case1 offset before => exact tableFrom_nil
  | case2 offset before c cs h => exact tableFrom_of_next?_eq_none h
  | case3 offset before c cs kind h =>
    -- no shape is empty
    obtain ⟨u, v, -, hlen, hshape⟩ := shape_of_next? h
    exact absurd (List.eq_nil_of_length_eq_zero hlen) hshape.ne_nil
  | case4 offset before c cs kind n h found ih =>
    obtain ⟨u, v, hsplit, hlen, hshape⟩ := shape_of_next? h
    have hu : (c :: cs).take (n + 1) = u := by rw [hsplit]; exact List.take_left' hlen
    have hv : (c :: cs).drop (n + 1) = v := by rw [hsplit]; exact List.drop_left' hlen
    rw [List.take_succ_cons] at hu
    rw [List.drop_succ_cons] at hv
    rw [hsplit, tableFrom_of_shape hshape, ← hu, ← hv, ih]
    rfl

end

end Lexer.OnePass

/-- The rule table, in which every rule is matched over the whole source by itself and the stronger rules claim their
matches first, gives the same tokens and the same error as one pass over the source from left to right. -/
theorem Lexer.tokenize_standard (source : String) : Lexer.tokenize Rule.standard source = OnePass.tokenize source := by
  rw [OnePass.tokenize_eq_tableFrom]
  exact OnePass.tableFrom_eq_tokensFrom 0 none source.toList

end SinglePass
