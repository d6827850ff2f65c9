import SinglePass.Proofs.Tiling

/-!
# The priority of rules

What a table does with its matches, whatever the rules are.  A rule keeps those of its matches that share no byte with
a token that a stronger rule has kept (`keeps_iff`), so whether a match is kept depends on the stronger rules alone, and
through them on the matches that they have kept and not on those that they have dropped.  By induction over the places
in the table there is only one way to satisfy this (`Prioritized.mem_congr`), and as the tokens are in the order of the
source, only one list of tokens (`Prioritized.eq`).

Weaker rules behind a table take nothing away from it: what is kept stays kept (`mem_survivors_append`).  If the tokens
leave no gap, no match of a weaker rule finds a free byte, and nothing is added either (`claim_eq_left`).
-/

namespace SinglePass.Lexer

variable {rules : List Rule} {source : List Char} {i j : Nat} {t u : Token}

/-! ### Kept tokens stay -/

theorem mem_survivors_concat_iff {r : Rule} : t ∈ survivors (rules ++ [r]) source ↔
    t ∈ survivors rules source ∨ (t ∈ r.tokens source ∧ ∀ k ∈ survivors rules source, t.Apart k) := by
  rw [survivors_concat]
  exact mem_claim_iff (survivors_ordered rules source) (ordered_tokens r source)

theorem mem_survivors_append (more : List Rule) (h : t ∈ survivors rules source) :
    t ∈ survivors (rules ++ more) source := by
  induction more using List.reverseRecOn with
  | nil => rwa [List.append_nil]
  | append_singleton more r ih =>
    rw [← List.append_assoc, mem_survivors_concat_iff]
    exact .inl ih

theorem mem_survivors_take (hij : i ≤ j) (h : t ∈ survivors (rules.take i) source) :
    t ∈ survivors (rules.take j) source := by
  have hsplit : rules.take j = rules.take i ++ (rules.drop i).take (j - i) := by
    rw [← List.take_add, Nat.add_sub_cancel' hij]
  rw [hsplit]
  exact mem_survivors_append _ h

/-! ### The rule that keeps a token -/

/-- The token is a match of the rule at a place in the table. -/
def FoundBy (rules : List Rule) (source : List Char) (i : Nat) (t : Token) : Prop :=
  ∃ r, rules[i]? = some r ∧ t ∈ r.tokens source

/-- The token is there when the rule at a place in the table has claimed its matches, and not before. -/
def Keeps (rules : List Rule) (source : List Char) (i : Nat) (t : Token) : Prop :=
  t ∈ survivors (rules.take (i + 1)) source ∧ t ∉ survivors (rules.take i) source

/-- The place in the table of the rule that has kept the token. -/
def keeper (rules : List Rule) (source : List Char) (t : Token) : Nat :=
  (List.range rules.length).findIdx fun i => decide (t ∈ survivors (rules.take (i + 1)) source)

theorem FoundBy.lt_length (h : FoundBy rules source i t) : i < rules.length := by
  obtain ⟨r, hr, -⟩ := h
  exact (List.getElem?_eq_some_iff.1 hr).1

theorem FoundBy.sliceOf (h : FoundBy rules source i t) : t.SliceOf 0 source := by
  obtain ⟨r, -, ht⟩ := h
  exact Rule.sliceOf_of_mem_tokens ht

/-- A rule keeps the matches that are apart from everything that was kept before. -/
theorem keeps_iff : Keeps rules source i t ↔
    FoundBy rules source i t ∧ ∀ k ∈ survivors (rules.take i) source, t.Apart k := by
  unfold Keeps FoundBy
  rw [List.take_add_one]
  cases hr : rules[i]? with
  | none => simp
  | some r =>
    rw [Option.toList_some, mem_survivors_concat_iff]
    constructor
    · rintro ⟨h | ⟨ht, hapart⟩, hnew⟩
      · exact absurd h hnew
      · exact ⟨⟨r, rfl, ht⟩, hapart⟩
    · rintro ⟨⟨r', hr', ht⟩, hapart⟩
      cases hr'
      refine ⟨.inr ⟨ht, hapart⟩, fun hold => ?_⟩
      -- a token that was there before would have to be apart from itself
      have hlt := (Rule.sliceOf_of_mem_tokens ht).lt_stop
      rcases hapart t hold with h | h <;> omega

/-- The tokens of the first rules are those that one of them has kept. -/
theorem mem_survivors_take_iff : t ∈ survivors (rules.take i) source ↔ ∃ j < i, Keeps rules source j t := by
  induction i with
  | zero => simp [survivors]
  | succ i ih =>
    constructor
    · intro h
      by_cases hold : t ∈ survivors (rules.take i) source
      · obtain ⟨j, hj, hkeeps⟩ := ih.1 hold
        exact ⟨j, by omega, hkeeps⟩
      · exact ⟨i, by omega, h, hold⟩
    · rintro ⟨j, hj, hkeeps⟩
      exact mem_survivors_take (by omega) hkeeps.1

theorem mem_survivors_iff : t ∈ survivors rules source ↔ ∃ i, Keeps rules source i t := by
  constructor
  · intro h
    rw [← List.take_length (l := rules), mem_survivors_take_iff] at h
    obtain ⟨i, -, hkeeps⟩ := h
    exact ⟨i, hkeeps⟩
  · rintro ⟨i, hkeeps⟩
    rw [← List.take_append_drop (i + 1) rules]
    exact mem_survivors_append _ hkeeps.1

theorem Keeps.keeper_eq (h : Keeps rules source i t) : keeper rules source t = i := by
  have hlt := (keeps_iff.1 h).1.lt_length
  unfold keeper
  rw [List.findIdx_eq (by rwa [List.length_range])]
  simp only [List.getElem_range, decide_eq_true_eq, decide_eq_false_iff_not]
  refine ⟨h.1, fun j hj hmem => h.2 ?_⟩
  exact mem_survivors_take hj hmem

/-! ### What priority determines -/

/-- A list of tokens, each with the place of a rule, in which the rules have kept what their priority gives them: the
tokens are in the order of the source, each is a nonempty match of its rule, and a match of a rule is in the list if and
only if it shares no byte with a token in the list that has a stronger rule. -/
structure Prioritized (rules : List Rule) (source : List Char) (out : List (Nat × Token)) : Prop where
  sorted : out.Pairwise fun p q => p.2.offset < q.2.offset
  found : ∀ p ∈ out, p.2.text ≠ "" ∧ FoundBy rules source p.1 p.2
  mem_iff : ∀ i t, FoundBy rules source i t →
    ((i, t) ∈ out ↔ ∀ p ∈ out, p.1 < i → ∀ b, t.Covers b → ¬p.2.Covers b)

/-- The tokens that survive the table, each with the place of the rule that has kept it. -/
def keptTokens (rules : List Rule) (source : List Char) : List (Nat × Token) :=
  (survivors rules source).map fun t => (keeper rules source t, t)

theorem mem_keptTokens_iff : (i, t) ∈ keptTokens rules source ↔ Keeps rules source i t := by
  unfold keptTokens
  rw [List.mem_map]
  constructor
  · rintro ⟨u, hu, heq⟩
    obtain ⟨j, hkeeps⟩ := mem_survivors_iff.1 hu
    rw [hkeeps.keeper_eq] at heq
    cases heq
    exact hkeeps
  · intro h
    exact ⟨t, mem_survivors_iff.2 ⟨i, h⟩, by rw [h.keeper_eq]⟩

theorem prioritized_keptTokens (rules : List Rule) (source : List Char) :
    Prioritized rules source (keptTokens rules source) where
  sorted := by
    unfold keptTokens
    rw [List.pairwise_map]
    apply List.Pairwise.imp_of_mem _ (survivors_ordered rules source)
    intro s t hs _ hle
    have hlt := (sliceOf_of_mem_survivors hs).lt_stop
    show s.offset < t.offset
    omega
  found := by
    rintro ⟨i, t⟩ hp
    have hfound := (keeps_iff.1 (mem_keptTokens_iff.1 hp)).1
    exact ⟨hfound.sliceOf.1, hfound⟩
  mem_iff := by
    intro i t hfound
    have ht := hfound.sliceOf.lt_stop
    rw [mem_keptTokens_iff, keeps_iff, and_iff_right hfound]
    constructor
    · rintro hapart ⟨j, u⟩ hp hj
      have hkeeps := mem_keptTokens_iff.1 hp
      have hu := (keeps_iff.1 hkeeps).1.sliceOf.lt_stop
      exact (Token.apart_iff ht hu).1 (hapart u (mem_survivors_take_iff.2 ⟨j, hj, hkeeps⟩))
    · intro h u hu
      obtain ⟨j, hj, hkeeps⟩ := mem_survivors_take_iff.1 hu
      have hlt := (keeps_iff.1 hkeeps).1.sliceOf.lt_stop
      exact (Token.apart_iff ht hlt).2 (h (j, u) (mem_keptTokens_iff.2 hkeeps) hj)

namespace Prioritized

variable {out out' : List (Nat × Token)}

/-- A match is in the one list if the stronger rules have kept the same matches in both. -/
theorem mem_of_stronger (h : Prioritized rules source out) (h' : Prioritized rules source out')
    (hstronger : ∀ j < i, ∀ u, (j, u) ∈ out' → (j, u) ∈ out) (ht : (i, t) ∈ out) : (i, t) ∈ out' := by
  have hfound := (h.found (i, t) ht).2
  rw [h'.mem_iff i t hfound]
  rintro ⟨j, u⟩ hu hj
  exact (h.mem_iff i t hfound).1 ht (j, u) (hstronger j hj u hu) hj

theorem mem_congr (h : Prioritized rules source out) (h' : Prioritized rules source out') (i : Nat) (t : Token) :
    (i, t) ∈ out ↔ (i, t) ∈ out' := by
  induction i using Nat.strong_induction_on generalizing t with
  | _ i ih =>
    constructor
    · exact h.mem_of_stronger h' fun j hj u => (ih j hj u).2
    · exact h'.mem_of_stronger h fun j hj u => (ih j hj u).1

/-- The priority of the rules leaves only one list. -/
theorem eq (h : Prioritized rules source out) (h' : Prioritized rules source out') : out = out' := by
  have hirrefl : Std.Irrefl fun p q : Nat × Token => p.2.offset < q.2.offset := ⟨fun p => Nat.lt_irrefl _⟩
  have hantisymm : Std.Antisymm fun p q : Nat × Token => p.2.offset < q.2.offset :=
    ⟨fun p q hpq hqp => absurd hqp (Nat.lt_asymm hpq)⟩
  exact h.sorted.eq_of_mem_iff h'.sorted fun p => h.mem_congr h' p.1 p.2

end Prioritized

/-- The tokens of a source, each with the rule that has kept it, are what the priority of the rules demands, and nothing
else is: every token is a nonempty match of its rule, and a match of a rule is kept if and only if it shares no byte
with a token that a stronger rule has kept. -/
theorem tokenize_priority {rules : List Rule} {source : String} {tokens : List Token}
    (h : tokenize rules source = .ok tokens) (out : List (Nat × Token)) :
    Prioritized rules source.toList out ↔ out = tokens.map fun t => (keeper rules source.toList t, t) := by
  have hkept : tokens.map (fun t => (keeper rules source.toList t, t)) = keptTokens rules source.toList := by
    rw [eq_survivors_of_tokenize h, keptTokens]
  rw [hkept]
  constructor
  · intro hout
    exact hout.eq (prioritized_keptTokens rules source.toList)
  · rintro rfl
    exact prioritized_keptTokens rules source.toList

private def shadowed : List Rule :=
  [⟨.identifier, .text ['b', 'c']⟩, ⟨.string, .run Char.isLower⟩, ⟨.float, .single (· == 'a')⟩,
    ⟨.float, .single (· == 'a')⟩]

/-- The run of letters is dropped and does not stand in the way of the letter before the stronger match, which two rules
find and the first of them keeps. -/
theorem tokenize_priority_shadowed :
    tokenize shadowed "abc" = .ok [⟨.float, "a", 0⟩, ⟨.identifier, "bc", 1⟩] ∧
    FoundBy shadowed "abc".toList 1 ⟨.string, "abc", 0⟩ ∧ FoundBy shadowed "abc".toList 3 ⟨.float, "a", 0⟩ ∧
    ∀ out, Prioritized shadowed "abc".toList out ↔ out = [(2, ⟨.float, "a", 0⟩), (0, ⟨.identifier, "bc", 1⟩)] := by
  have hok : tokenize shadowed "abc" = .ok [⟨.float, "a", 0⟩, ⟨.identifier, "bc", 1⟩] := by
    cbv
  have hfloat : keeper shadowed "abc".toList ⟨.float, "a", 0⟩ = 2 := by
    cbv
  have hname : keeper shadowed "abc".toList ⟨.identifier, "bc", 1⟩ = 0 := by
    cbv
  have hrun : (Rule.mk .string (.run Char.isLower)).tokens "abc".toList = [⟨.string, "abc", 0⟩] := by
    cbv
  have hletter : (Rule.mk .float (.single (· == 'a'))).tokens "abc".toList = [⟨.float, "a", 0⟩] := by
    cbv
  refine ⟨hok, ⟨_, rfl, ?_⟩, ⟨_, rfl, ?_⟩, fun out => ?_⟩
  · rw [hrun]
    exact List.mem_singleton_self _
  · rw [hletter]
    exact List.mem_singleton_self _
  · rw [tokenize_priority hok out, List.map_cons, List.map_cons, List.map_nil, hfloat, hname]

/-! ### Weaker rules -/

/-- Matches that all overlap kept tokens are all dropped. -/
theorem claim_eq_left {kept found : List Token} (hk : Ordered kept) (hf : Ordered found)
    (h : ∀ m ∈ found, ∃ k ∈ kept, ¬m.Apart k) : claim kept found = kept := by
  fun_induction claim kept found with
  | case1 found =>
    cases found with
    | nil => rfl
    | cons m found =>
      obtain ⟨k, hkept, -⟩ := h m List.mem_cons_self
      cases hkept
  | case2 kept => rfl
  | case3 k kept m found hle ih =>
    -- the match would end before anything that is kept
    obtain ⟨u, hu, hover⟩ := h m List.mem_cons_self
    have hfirst := hk.le_of_mem hu
    exact absurd (.inl (by omega)) hover
  | case4 k kept m found _ hle ih =>
    -- no match overlaps the first kept token, so each overlaps another one
    rw [ih hk.of_cons hf]
    intro u hu
    obtain ⟨k', hk', hover⟩ := h u hu
    have hfirst := hf.le_of_mem hu
    rcases List.mem_cons.1 hk' with rfl | hk'
    · exact absurd (.inr (by omega)) hover
    · exact ⟨k', hk', hover⟩
  | case5 k kept m found _ _ ih => exact ih hk hf.of_cons fun u hu => h u (List.mem_cons_of_mem m hu)

/-- If the tokens leave no gap, weaker rules find no place. -/
theorem survivors_append_of_tiles (more : List Rule) (h : Tiles 0 (byteSize source) (survivors rules source)) :
    survivors (rules ++ more) source = survivors rules source := by
  induction more using List.reverseRecOn with
  | nil => rw [List.append_nil]
  | append_singleton more r ih =>
    rw [← List.append_assoc, survivors_concat, ih]
    apply claim_eq_left (survivors_ordered rules source) (ordered_tokens r source)
    intro m hm
    have hslice := Rule.sliceOf_of_mem_tokens hm
    have hlt := hslice.lt_stop
    have hstart := hslice.offset_lt
    rw [Nat.zero_add] at hstart
    obtain ⟨k, hk, hcovers⟩ := h.exists_covers (Nat.zero_le m.offset) hstart
    refine ⟨k, hk, fun hapart => ?_⟩
    have hk' := (sliceOf_of_mem_survivors hk).lt_stop
    exact (Token.apart_iff hlt hk').1 hapart m.offset ⟨le_refl _, hlt⟩ hcovers

theorem claimedBytes_append (more : List Rule) {b : Nat} (h : claimedBytes rules source b = true) :
    claimedBytes (rules ++ more) source b = true := by
  obtain ⟨t, ht, hcovers⟩ := (claimedBytes_eq_true_iff rules source b).1 h
  exact (claimedBytes_eq_true_iff (rules ++ more) source b).2 ⟨t, mem_survivors_append more ht, hcovers⟩

/-- Weaker rules behind a table change nothing if the table has tokens for the whole source, and otherwise help or fail
no earlier. -/
theorem tokenize_append (rules more : List Rule) (source : String) :
    (∀ tokens, tokenize rules source = .ok tokens → tokenize (rules ++ more) source = .ok tokens) ∧
    (∀ offset c, tokenize rules source = .error (.uncovered offset c) →
      (∃ tokens, tokenize (rules ++ more) source = .ok tokens) ∨
        ∃ offset' c', tokenize (rules ++ more) source = .error (.uncovered offset' c') ∧ offset ≤ offset') := by
  rcases tokenize_cases rules source with ⟨hok, htiles, -⟩ | ⟨before, c, after, -, herror, -, hclaimed⟩
  · rw [← byteSize_toList] at htiles
    have hsame := survivors_append_of_tiles more htiles
    constructor
    · intro tokens h
      rw [tokenize_eq] at h ⊢
      rwa [hsame]
    · intro offset c h
      rw [hok] at h
      cases h
  · constructor
    · intro tokens h
      rw [herror] at h
      cases h
    · intro offset c' h
      rw [herror] at h
      cases h
      rcases tokenize_cases (rules ++ more) source with ⟨hok, -, -⟩ | ⟨before', c', after', -, herror', hfree, -⟩
      · exact .inl ⟨_, hok⟩
      · refine .inr ⟨_, c', herror', ?_⟩
        -- the bytes before the old error are still claimed
        by_contra hlt
        have hstill := claimedBytes_append more (hclaimed (byteSize before') (by omega))
        rw [hfree] at hstill
        cases hstill

private def shortTable : List Rule := [⟨.int, .run Char.isDigit⟩, ⟨.identifier, .run Char.isLower⟩]

/-- A weaker rule for runs of digits and letters has no effect where the table suffices; one for blanks moves the error
behind the blank; and one for anything is enough. -/
theorem tokenize_append_shortTable :
    tokenize (shortTable ++ [⟨.string, .run Char.isAlphanum⟩]) "12ab" =
      .ok [⟨.int, "12", 0⟩, ⟨.identifier, "ab", 2⟩] ∧
    tokenize shortTable "1 é" = .error (.uncovered 1 ' ') ∧
    (∃ offset c, tokenize (shortTable ++ [⟨.whitespace, .run Text.isBlank⟩]) "1 é" = .error (.uncovered offset c) ∧
      1 ≤ offset) ∧
    tokenize (shortTable ++ [⟨.string, .single (· != '\n')⟩]) "1 é" =
      .ok [⟨.int, "1", 0⟩, ⟨.string, " ", 1⟩, ⟨.string, "é", 2⟩] := by
  have hok : tokenize shortTable "12ab" = .ok [⟨.int, "12", 0⟩, ⟨.identifier, "ab", 2⟩] := by
    cbv
  have herror : tokenize shortTable "1 é" = .error (.uncovered 1 ' ') := by
    cbv
  have hlater : tokenize (shortTable ++ [⟨.whitespace, .run Text.isBlank⟩]) "1 é" = .error (.uncovered 2 'é') := by
    cbv
  have hall : tokenize (shortTable ++ [⟨.string, .single (· != '\n')⟩]) "1 é" =
      .ok [⟨.int, "1", 0⟩, ⟨.string, " ", 1⟩, ⟨.string, "é", 2⟩] := by
    cbv
  refine ⟨(tokenize_append shortTable _ "12ab").1 _ hok, herror, ?_, hall⟩
  rcases (tokenize_append shortTable [⟨.whitespace, .run Text.isBlank⟩] "1 é").2 1 ' ' herror with
    ⟨tokens, h⟩ | h
  · rw [hlater] at h
    cases h
  · exact h

end SinglePass.Lexer
