import SinglePass.Lexer
import SinglePass.Proofs.Texts

/-!
# Rules that claim their matches

Empty matches are never taken, so only the nonempty ones have to be followed (`filter_findIter`).  What the rules claim
can then be kept in the order of the source: `claim` merges the matches of one rule into the tokens kept so far, and
drops those that overlap a kept token.  That this leaves the same tokens as marking bytes and sorting at the end is
shown elsewhere.

If the source begins with a text `u` such that some rule matches exactly `u`, the rules before it match nowhere in `u`,
and those behind it may match inside `u` but not beyond its end, then `u` becomes a token and the rest of the source is
treated as if it stood alone (`survivorsFrom_eq_cons`).  The first character that is claimed by nobody can then be
looked for behind `u` (`firstUnclaimed_cons`).

The point is that all rules are in step again at the end of `u`: a walk over the source that has not passed the end of
`u` inside a match arrives there and goes on as it would from there (`findAll_of_stays`).
-/

namespace SinglePass

/-! ### Nonempty matches -/

namespace Pattern

/-- The number of characters matched, or zero if there is no match or an empty one. -/
def matchLength (p : Pattern) (before : Option Char) (cs : List Char) : Nat := (p.match? before cs).getD 0

@[simp]
theorem matchLength_ofLength (length : Option Char → List Char → Nat) (before : Option Char) (cs : List Char) :
    (ofLength length).matchLength before cs = length before cs := by
  unfold matchLength ofLength
  by_cases h : length before cs = 0 <;> simp [h]

/-- The nonempty matches in a source, each with the byte at which it starts. -/
def findAll (p : Pattern) (offset : Nat) (before : Option Char) : List Char → List (Nat × List Char)
  | [] => []
  | c :: cs =>
    match p.matchLength before (c :: cs) with
    | 0 => findAll p (offset + c.utf8Size) (some c) cs
    | n + 1 =>
      let found := c :: cs.take n
      (offset, found) :: findAll p (offset + byteSize found) found.getLast? (cs.drop n)
termination_by cs => cs.length
decreasing_by
  · exact Nat.lt_succ_self _
  · exact Nat.lt_succ_of_le (List.length_drop ▸ Nat.sub_le _ _)

theorem filter_findIter (p : Pattern) (offset : Nat) (before : Option Char) (adjacent : Bool) (cs : List Char) :
    (p.findIter offset before adjacent cs).filter (fun m => decide (m.2 ≠ [])) = p.findAll offset before cs := by
  fun_induction findIter p offset before adjacent cs with
  | case1 => simp [findAll]
  | case2 => simp [findAll]
  | case3 offset before adjacent c cs hnone ih =>
    have hzero : p.matchLength before (c :: cs) = 0 := by simp [matchLength, hnone]
    rw [ih, findAll, hzero]
  | case4 offset before c cs hempty ih =>
    have hzero : p.matchLength before (c :: cs) = 0 := by simp [matchLength, hempty]
    rw [ih, findAll, hzero]
  | case5 offset before adjacent c cs hempty _ ih =>
    have hzero : p.matchLength before (c :: cs) = 0 := by simp [matchLength, hempty]
    rw [List.filter_cons_of_neg (by simp), ih, findAll, hzero]
  | case6 offset before adjacent c cs n hmatch found ih =>
    have hlength : p.matchLength before (c :: cs) = n + 1 := by simp [matchLength, hmatch]
    rw [List.filter_cons_of_pos (by simp [found]), ih, findAll, hlength]

end Pattern

namespace Rule

/-- The nonempty matches of the rule as tokens. -/
def tokens (r : Rule) (source : List Char) : List Token := (r.found source).filter fun t => decide (t.text ≠ "")

theorem tokens_eq (r : Rule) (source : List Char) :
    r.tokens source = (r.pattern.findAll 0 none source).map fun m => ⟨r.kind, String.ofList m.2, m.1⟩ := by
  have hempty : ∀ cs : List Char, String.ofList cs ≠ "" ↔ cs ≠ [] := by
    intro cs
    rw [Ne, Ne, ← String.ofList_nil, String.ofList_inj]
  rw [tokens, found, List.filter_map, ← Pattern.filter_findIter r.pattern 0 none false source]
  simp only [Function.comp_def, hempty]

end Rule

namespace Lexer

/-- Adds the matches of one rule to the tokens kept so far, dropping those that overlap a kept token.  Both lists
are in the order of the source, and so is the result. -/
def claim : List Token → List Token → List Token
  | [], found => found
  | kept, [] => kept
  | k :: kept, m :: found =>
    if m.stop ≤ k.offset then m :: claim (k :: kept) found
    else if k.stop ≤ m.offset then k :: claim kept (m :: found)
    else claim (k :: kept) found
termination_by kept found => kept.length + found.length

/-- The first character that lies in none of the tokens, with its byte. -/
def firstUnclaimed (offset : Nat) : List Char → List Token → Option (Nat × Char)
  | [], _ => none
  | c :: _, [] => some (offset, c)
  | c :: cs, t :: ts =>
    if offset < t.offset then some (offset, c)
    else if offset + c.utf8Size < t.stop then firstUnclaimed (offset + c.utf8Size) cs (t :: ts)
    else firstUnclaimed (offset + c.utf8Size) cs ts

/-- The tokens that survive the whole table. -/
def survivors (rules : List Rule) (source : List Char) : List Token :=
  rules.foldl (fun kept r => claim kept (r.tokens source)) []

end Lexer

/-! ### The matches of one pattern -/

namespace Pattern

variable {p : Pattern} {before : Option Char} {u v : List Char}

/-- The pattern matches nowhere in `u`, which is followed by `v`. -/
def Skips (p : Pattern) (before : Option Char) (u v : List Char) : Prop :=
  ∀ a b, u = a ++ b → b ≠ [] → p.matchLength (a.getLast?.or before) (b ++ v) = 0

/-- The pattern matches nothing that begins in `u` and ends behind it. -/
def Stays (p : Pattern) (before : Option Char) (u v : List Char) : Prop :=
  ∀ a b, u = a ++ b → b ≠ [] → p.matchLength (a.getLast?.or before) (b ++ v) ≤ b.length

theorem Skips.stays (h : p.Skips before u v) : p.Stays before u v := by
  intro a b hu hb
  rw [h a b hu hb]
  exact Nat.zero_le _

private theorem getLast?_append_or (a b : List Char) (before : Option Char) :
    (a ++ b).getLast?.or before = b.getLast?.or (a.getLast?.or before) := by
  rw [List.getLast?_append, Option.or_assoc]

theorem Skips.suffix {a b : List Char} (h : p.Skips before (a ++ b) v) : p.Skips (a.getLast?.or before) b v := by
  intro a' b' hb hne
  rw [← getLast?_append_or]
  exact h (a ++ a') b' (by rw [hb, List.append_assoc]) hne

theorem Stays.suffix {a b : List Char} (h : p.Stays before (a ++ b) v) : p.Stays (a.getLast?.or before) b v := by
  intro a' b' hb hne
  rw [← getLast?_append_or]
  exact h (a ++ a') b' (by rw [hb, List.append_assoc]) hne

theorem findAll_of_no_match {c : Char} {cs : List Char} (offset : Nat) (h : p.matchLength before (c :: cs) = 0) :
    p.findAll offset before (c :: cs) = p.findAll (offset + c.utf8Size) (some c) cs := by
  rw [findAll, h]

/-- A match of exactly `u` is found, and the walk goes on behind it. -/
theorem findAll_of_match (offset : Nat) (hu : u ≠ []) (h : p.matchLength before (u ++ v) = u.length) :
    p.findAll offset before (u ++ v) =
      (offset, u) :: p.findAll (offset + byteSize u) (u.getLast?.or before) v := by
  obtain ⟨c, u, rfl⟩ := List.exists_cons_of_ne_nil hu
  rw [List.cons_append] at h ⊢
  rw [findAll, h]
  simp [List.getLast?_cons]

/-- A pattern that matches nowhere in `u` finds what it finds behind it. -/
theorem findAll_of_skips (offset : Nat) (h : p.Skips before u v) :
    p.findAll offset before (u ++ v) = p.findAll (offset + byteSize u) (u.getLast?.or before) v := by
  induction u generalizing offset before with
  | nil => simp [byteSize]
  | cons c u ih =>
    have hzero : p.matchLength before (c :: (u ++ v)) = 0 := h [] (c :: u) rfl (by simp)
    have hrest : p.Skips (some c) u v := Skips.suffix (a := [c]) h
    rw [List.cons_append, findAll_of_no_match offset hzero, ih _ hrest, byteSize, Nat.add_assoc,
      ← List.singleton_append, getLast?_append_or]
    rfl

/-- A pattern whose matches in `u` end there finds them, and then what it finds behind `u`. -/
theorem findAll_of_stays (offset : Nat) (h : p.Stays before u v) : ∃ inside : List (Nat × List Char),
    p.findAll offset before (u ++ v) = inside ++ p.findAll (offset + byteSize u) (u.getLast?.or before) v ∧
    ∀ m ∈ inside, offset ≤ m.1 ∧ m.1 < offset + byteSize u ∧ m.2 ≠ [] := by
  induction hn : u.length using Nat.strong_induction_on generalizing offset before u with
  | _ n ih =>
    cases u with
    | nil => exact ⟨[], by simp [byteSize], by simp⟩
    | cons c u =>
      have hle : p.matchLength before (c :: (u ++ v)) ≤ u.length + 1 := h [] (c :: u) rfl (by simp)
      have hpos := c.utf8Size_pos
      cases hlen : p.matchLength before (c :: (u ++ v)) with
      | zero =>
        obtain ⟨inside, heq, hin⟩ := ih u.length (by simp [← hn]) (offset + c.utf8Size)
          (Stays.suffix (a := [c]) h) rfl
        refine ⟨inside, ?_, fun m hm => ?_⟩
        · rw [List.cons_append, findAll_of_no_match offset hlen, byteSize, ← List.singleton_append,
            getLast?_append_or, ← Nat.add_assoc]
          exact heq
        · obtain ⟨h₁, h₂, h₃⟩ := hin m hm
          simp only [byteSize]
          exact ⟨by omega, by omega, h₃⟩
      | succ k =>
        -- the walk jumps over the match, which is a beginning of `u`
        rw [hlen] at hle
        have hsplit : c :: u = (c :: u.take k) ++ u.drop k := by simp
        have hmatch : p.matchLength before ((c :: u.take k) ++ (u.drop k ++ v)) = (c :: u.take k).length := by
          rw [← List.append_assoc, ← hsplit, List.cons_append, hlen, List.length_cons, List.length_take]
          omega
        rw [hsplit] at h
        obtain ⟨inside, heq, hin⟩ := ih (u.drop k).length (by rw [← hn]; simp)
          (offset + byteSize (c :: u.take k)) h.suffix rfl
        rw [hsplit]
        refine ⟨(offset, c :: u.take k) :: inside, ?_, ?_⟩
        · rw [List.append_assoc, findAll_of_match offset (by simp) hmatch, heq, byteSize_append,
            getLast?_append_or, Nat.add_assoc, List.cons_append]
        · intro m hm
          rw [byteSize_append]
          have hfirst : 0 < byteSize (c :: u.take k) := byteSize_pos (by simp)
          rcases List.mem_cons.1 hm with rfl | hm
          · exact ⟨le_refl _, by simp only; omega, by simp⟩
          · obtain ⟨h₁, h₂, h₃⟩ := hin m hm
            exact ⟨by omega, by omega, h₃⟩

/-- No match starts before the place where the walk starts. -/
theorem le_of_mem_findAll {offset : Nat} {cs : List Char} {m : Nat × List Char}
    (h : m ∈ p.findAll offset before cs) : offset ≤ m.1 := by
  fun_induction findAll p offset before cs with
  | case1 => cases h
  | case2 offset before c cs _ ih =>
    have := ih h
    omega
  | case3 offset before c cs k _ found ih =>
    rcases List.mem_cons.1 h with rfl | h
    · exact le_refl _
    · have := ih h
      omega

end Pattern

/-! ### Claims -/

namespace Lexer

theorem mem_claim {kept found : List Token} {t : Token} (h : t ∈ claim kept found) : t ∈ kept ∨ t ∈ found := by
  fun_induction claim kept found with
  | case1 found => exact .inr h
  | case2 kept => exact .inl h
  | case3 k kept m found _ ih =>
    rcases List.mem_cons.1 h with rfl | h
    · simp
    · rcases ih h with h | h <;> simp_all
  | case4 k kept m found _ _ ih =>
    rcases List.mem_cons.1 h with rfl | h
    · simp
    · rcases ih h with h | h <;> simp_all
  | case5 k kept m found _ _ ih => rcases ih h with h | h <;> simp_all

/-- A match in front of everything that is kept is kept. -/
theorem claim_cons_of_le {kept found : List Token} {t : Token} (h : ∀ k ∈ kept, t.stop ≤ k.offset) :
    claim kept (t :: found) = t :: claim kept found := by
  cases kept with
  | nil => simp [claim]
  | cons k kept => rw [claim, if_pos (h k (by simp))]

/-- Matches that overlap the first kept token are dropped, if the others lie behind it. -/
theorem cons_claim_of_overlap {kept inside found : List Token} {k : Token} (hk : k.offset < k.stop)
    (hin : ∀ m ∈ inside, k.offset < m.stop ∧ m.offset < k.stop) (hf : ∀ m ∈ found, k.stop ≤ m.offset) :
    claim (k :: kept) (inside ++ found) = k :: claim kept found := by
  induction inside with
  | nil =>
    cases found with
    | nil => cases kept <;> simp [claim]
    | cons m found =>
      have hm := hf m (by simp)
      have hstop : m.offset ≤ m.stop := Nat.le_add_right _ _
      rw [List.nil_append, claim, if_neg (by omega), if_pos hm]
  | cons m inside ih =>
    obtain ⟨h₁, h₂⟩ := hin m (by simp)
    rw [List.cons_append, claim, if_neg (by omega), if_neg (by omega)]
    exact ih fun m hm => hin m (by simp [hm])

end Lexer

/-! ### The table at one place of the source -/

/-- The matches of a rule from a place on, as tokens. -/
def Rule.tokensFrom (r : Rule) (offset : Nat) (before : Option Char) (cs : List Char) : List Token :=
  (r.pattern.findAll offset before cs).map fun m => ⟨r.kind, String.ofList m.2, m.1⟩

theorem Rule.le_of_mem_tokensFrom {r : Rule} {offset : Nat} {before : Option Char} {cs : List Char} {t : Token}
    (h : t ∈ r.tokensFrom offset before cs) : offset ≤ t.offset := by
  obtain ⟨m, hm, rfl⟩ := List.mem_map.1 h
  exact Pattern.le_of_mem_findAll hm

namespace Lexer

/-- What is left of the matches from a place on, when the rules have claimed theirs behind the tokens kept so far. -/
def claimFrom (offset : Nat) (before : Option Char) (cs : List Char) (kept : List Token) (rules : List Rule) :
    List Token :=
  rules.foldl (fun kept r => claim kept (r.tokensFrom offset before cs)) kept

/-- The tokens that survive the table from a place on. -/
def survivorsFrom (rules : List Rule) (offset : Nat) (before : Option Char) (cs : List Char) : List Token :=
  claimFrom offset before cs [] rules

theorem survivors_eq (rules : List Rule) (source : List Char) :
    survivors rules source = survivorsFrom rules 0 none source := by
  simp only [survivors, Rule.tokens_eq]
  rfl

section

variable {rules : List Rule} {offset : Nat} {before : Option Char} {u v cs : List Char} {kept : List Token}

theorem mem_claimFrom {t : Token} (h : t ∈ claimFrom offset before cs kept rules) : t ∈ kept ∨ offset ≤ t.offset := by
  induction rules generalizing kept with
  | nil => exact .inl h
  | cons r rules ih =>
    rcases ih h with h | h
    · rcases mem_claim h with h | h
      · exact .inl h
      · exact .inr (Rule.le_of_mem_tokensFrom h)
    · exact .inr h

theorem claimFrom_nil : claimFrom offset before [] kept rules = kept := by
  induction rules generalizing kept with
  | nil => rfl
  | cons r rules ih =>
    have hr : r.tokensFrom offset before [] = [] := by rw [Rule.tokensFrom, Pattern.findAll]; rfl
    show claimFrom offset before [] (claim kept (r.tokensFrom offset before [])) rules = kept
    rw [hr, ih]
    cases kept <;> simp [claim]

/-- Rules that match nowhere in `u` claim what they claim behind it. -/
theorem claimFrom_of_skips (h : ∀ r ∈ rules, r.pattern.Skips before u v) :
    claimFrom offset before (u ++ v) kept rules =
      claimFrom (offset + byteSize u) (u.getLast?.or before) v kept rules := by
  induction rules generalizing kept with
  | nil => rfl
  | cons r rules ih =>
    have hr : r.tokensFrom offset before (u ++ v) = r.tokensFrom (offset + byteSize u) (u.getLast?.or before) v := by
      rw [Rule.tokensFrom, Pattern.findAll_of_skips offset (h r (by simp)), Rule.tokensFrom]
    show claimFrom offset before (u ++ v) (claim kept (r.tokensFrom offset before (u ++ v))) rules = _
    rw [hr, ih fun q hq => h q (by simp [hq])]
    rfl

/-- When `u` is a kept token, rules whose matches in `u` end there claim what they claim behind it. -/
theorem claimFrom_of_stays {k : Token} (hu : u ≠ []) (hoffset : k.offset = offset)
    (hstop : k.stop = offset + byteSize u) (h : ∀ r ∈ rules, r.pattern.Stays before u v) :
    claimFrom offset before (u ++ v) (k :: kept) rules =
      k :: claimFrom (offset + byteSize u) (u.getLast?.or before) v kept rules := by
  have hpos := byteSize_pos hu
  induction rules generalizing kept with
  | nil => rfl
  | cons r rules ih =>
    obtain ⟨inside, hfind, hin⟩ := Pattern.findAll_of_stays offset (h r (by simp))
    have hclaim : claim (k :: kept) (r.tokensFrom offset before (u ++ v)) =
        k :: claim kept (r.tokensFrom (offset + byteSize u) (u.getLast?.or before) v) := by
      rw [Rule.tokensFrom, hfind, List.map_append]
      refine cons_claim_of_overlap (by omega) ?_ ?_
      · intro t ht
        obtain ⟨m, hm, rfl⟩ := List.mem_map.1 ht
        obtain ⟨h₁, h₂, h₃⟩ := hin m hm
        have := byteSize_pos h₃
        rw [Token.stop_mk]
        exact ⟨by omega, by simp only; omega⟩
      · intro t ht
        rw [hstop]
        exact Rule.le_of_mem_tokensFrom ht
    show claimFrom offset before (u ++ v) (claim (k :: kept) (r.tokensFrom offset before (u ++ v))) rules = _
    rw [hclaim, ih fun q hq => h q (by simp [hq])]
    rfl

/-- A text becomes a token if a rule matches it, the rules before that one match nowhere in it and the rules behind
it match nothing that begins in it and ends behind it. -/
theorem survivorsFrom_eq_cons (stronger : List Rule) (r : Rule) (weaker : List Rule) (hu : u ≠ [])
    (hskips : ∀ q ∈ stronger, q.pattern.Skips before u v) (hmatch : r.pattern.matchLength before (u ++ v) = u.length)
    (hstays : ∀ q ∈ weaker, q.pattern.Stays before u v) :
    survivorsFrom (stronger ++ r :: weaker) offset before (u ++ v) =
      ⟨r.kind, String.ofList u, offset⟩ ::
        survivorsFrom (stronger ++ r :: weaker) (offset + byteSize u) (u.getLast?.or before) v := by
  have hsplit : ∀ offset before cs, survivorsFrom (stronger ++ r :: weaker) offset before cs =
      claimFrom offset before cs (claim (claimFrom offset before cs [] stronger) (r.tokensFrom offset before cs))
        weaker := by
    intro offset before cs
    rw [survivorsFrom, claimFrom, List.foldl_append]
    rfl
  have hr : r.tokensFrom offset before (u ++ v) = ⟨r.kind, String.ofList u, offset⟩ ::
      r.tokensFrom (offset + byteSize u) (u.getLast?.or before) v := by
    rw [Rule.tokensFrom, Pattern.findAll_of_match offset hu hmatch]
    rfl
  -- the stronger rules have kept nothing before the end of `u`
  have hfront : ∀ k ∈ claimFrom (offset + byteSize u) (u.getLast?.or before) v [] stronger,
      (Token.mk r.kind (String.ofList u) offset).stop ≤ k.offset := by
    intro k hk
    rw [Token.stop_mk]
    exact (mem_claimFrom hk).resolve_left (by simp)
  rw [hsplit, hsplit, claimFrom_of_skips hskips, hr, claim_cons_of_le hfront]
  exact claimFrom_of_stays hu rfl (Token.stop_mk _ _ _) hstays

/-- If no rule matches at a place, all tokens lie behind it. -/
theorem lt_of_mem_survivorsFrom {c : Char} (h : ∀ r ∈ rules, r.pattern.matchLength before (c :: cs) = 0) {t : Token}
    (ht : t ∈ survivorsFrom rules offset before (c :: cs)) : offset < t.offset := by
  have hskips : ∀ r ∈ rules, r.pattern.Skips before [c] cs := by
    intro r hr a b hab hb
    rcases List.append_eq_singleton_iff.1 hab.symm with ⟨rfl, rfl⟩ | ⟨rfl, rfl⟩
    · exact h r hr
    · exact absurd rfl hb
  have hpos := c.utf8Size_pos
  rw [survivorsFrom, ← List.singleton_append, claimFrom_of_skips hskips] at ht
  have := (mem_claimFrom ht).resolve_left (by simp)
  simp only [byteSize] at this
  omega

theorem firstUnclaimed_of_lt {c : Char} {ts : List Token} (h : ∀ t ∈ ts, offset < t.offset) :
    firstUnclaimed offset (c :: cs) ts = some (offset, c) := by
  cases ts with
  | nil => rfl
  | cons t ts => rw [firstUnclaimed, if_pos (h t (by simp))]

/-- Nothing inside a token is left unclaimed. -/
theorem firstUnclaimed_cons {t : Token} {ts : List Token} (hu : u ≠ []) (hle : t.offset ≤ offset)
    (hstop : t.stop = offset + byteSize u) :
    firstUnclaimed offset (u ++ v) (t :: ts) = firstUnclaimed (offset + byteSize u) v ts := by
  induction u generalizing offset with
  | nil => exact absurd rfl hu
  | cons c u ih =>
    simp only [byteSize] at hstop ⊢
    rw [List.cons_append, firstUnclaimed, if_neg (by omega)]
    by_cases hnil : u = []
    · subst hnil
      simp only [byteSize] at hstop ⊢
      rw [if_neg (by omega)]
      rfl
    · have := byteSize_pos hnil
      rw [if_pos (by omega), ih hnil (by omega) (by omega), Nat.add_assoc]

end

end Lexer

end SinglePass
