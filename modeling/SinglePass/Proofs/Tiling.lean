import SinglePass.Proofs.Survivors

/-!
# Tokens tile the source

What the pattern of a rule finds may be any nonempty pieces of the source that are in order and do not overlap
(`Pattern.exists_findAll_eq_iff`), besides empty ones.  Whatever the rules are, the tokens that survive the table are
again such pieces.  They leave no gap if and only if all bytes are claimed when the lexer has been through the table
(`claimedBytes`).
-/

namespace SinglePass

namespace Pattern

theorem findAll_congr {p q : Pattern} (offset : Nat) (before : Option Char) (cs : List Char)
    (h : ∀ before cs', cs'.length ≤ cs.length → p.matchLength before cs' = q.matchLength before cs') :
    p.findAll offset before cs = q.findAll offset before cs := by
  fun_induction findAll p offset before cs with
  | case1 => rw [findAll]
  | case2 offset before c cs hzero ih =>
    rw [h before (c :: cs) (le_refl _)] at hzero
    rw [findAll_of_no_match offset hzero]
    exact ih fun before cs' hle => h before cs' (Nat.le_succ_of_le hle)
  | case3 offset before c cs n hmatch found ih =>
    rw [h before (c :: cs) (le_refl _)] at hmatch
    rw [ih fun before cs' hle => h before cs' ?_, findAll, hmatch]
    simp only [List.length_drop, List.length_cons] at hle ⊢
    omega

/-- The matches are nonempty pieces of the characters, in order and without overlap. -/
def InOrder (offset : Nat) (cs : List Char) (ms : List (Nat × List Char)) : Prop :=
  (∀ m ∈ ms, m.2 ≠ [] ∧ ∃ a b, cs = a ++ (m.2 ++ b) ∧ m.1 = offset + byteSize a) ∧
    ms.Pairwise fun m m' => m.1 + byteSize m.2 ≤ m'.1

/-- Looks for one match in front of `rest`, and for those of another pattern from there on. -/
def startAt (u rest : List Char) (p : Pattern) : Pattern := ofLength fun before cs =>
  if cs.length ≤ rest.length then p.matchLength before cs
  else if cs.length = u.length + rest.length then u.length
  else 0

theorem exists_findAll_eq {offset : Nat} {cs : List Char} {ms : List (Nat × List Char)} (h : InOrder offset cs ms) :
    ∃ p : Pattern, ∀ before, p.findAll offset before cs = ms := by
  -- a place is known by the number of characters from there on
  induction ms generalizing offset cs with
  | nil =>
    refine ⟨ofLength fun _ _ => 0, fun before => ?_⟩
    have hskips : (ofLength fun _ _ => 0).Skips before cs [] := fun _ _ _ _ => matchLength_ofLength _ _ _
    simpa [findAll] using findAll_of_skips offset hskips
  | cons m ms ih =>
    obtain ⟨offset', u⟩ := m
    obtain ⟨hpieces, hordered⟩ := h
    obtain ⟨hne, a, rest, rfl, rfl⟩ := hpieces _ List.mem_cons_self
    have hrest : InOrder (offset + byteSize a + byteSize u) rest ms := by
      refine ⟨fun m hm => ?_, hordered.of_cons⟩
      obtain ⟨hm', a', b', hcs, hstart⟩ := hpieces m (List.mem_cons_of_mem _ hm)
      have hle := (List.pairwise_cons.1 hordered).1 m hm
      rw [← List.append_assoc] at hcs
      obtain ⟨more, rfl, hmore⟩ := exists_append_of_byteSize_le hcs (by rw [byteSize_append]; omega)
      simp only [byteSize_append] at hstart
      exact ⟨hm', more, b', hmore, by omega⟩
    obtain ⟨p, hp⟩ := ih hrest
    refine ⟨p.startAt u rest, fun before => ?_⟩
    have hpos : 0 < u.length := List.length_pos_iff.2 hne
    have hskips : (p.startAt u rest).Skips before a (u ++ rest) := by
      intro x y _ hy
      have hpos' := List.length_pos_iff.2 hy
      simp only [startAt, matchLength_ofLength, List.length_append]
      rw [if_neg (by omega), if_neg (by omega)]
    have hmatch : (p.startAt u rest).matchLength (a.getLast?.or before) (u ++ rest) = u.length := by
      simp only [startAt, matchLength_ofLength, List.length_append]
      rw [if_neg (by omega), if_pos trivial]
    have hsame : ∀ before cs, cs.length ≤ rest.length → (p.startAt u rest).matchLength before cs =
        p.matchLength before cs := fun before cs hle => (matchLength_ofLength _ _ _).trans (if_pos hle)
    rw [findAll_of_skips offset hskips, findAll_of_match _ hne hmatch, findAll_congr _ _ rest hsame, hp]

/-- What patterns find in a text are all the lists of nonempty pieces in order and without overlap. -/
theorem exists_findAll_eq_iff (source : List Char) (ms : List (Nat × List Char)) :
    (∃ p : Pattern, p.findAll 0 none source = ms) ↔ InOrder 0 source ms := by
  constructor
  · rintro ⟨p, rfl⟩
    exact ⟨fun m hm => mem_findAll hm, p.pairwise_findAll 0 none source⟩
  · intro h
    obtain ⟨p, hp⟩ := exists_findAll_eq h
    exact ⟨p, hp none⟩

end Pattern

namespace Lexer

/-- The bytes that are claimed when all rules have been offered their matches, in the order of the table. -/
def claimedBytes (rules : List Rule) (source : List Char) (b : Nat) : Bool :=
  (claims rules source).claimed.getD b false

/-- The claimed bytes are the bytes of the tokens that survive. -/
theorem claimedBytes_eq_true_iff (rules : List Rule) (source : List Char) :
    ClaimedBy (claimedBytes rules source) (survivors rules source) := (holds_claims rules source).claimedBy

theorem eq_survivors_of_tokenize {rules : List Rule} {source : String} {tokens : List Token}
    (h : tokenize rules source = .ok tokens) : tokens = survivors rules source.toList := by
  rw [tokenize_eq] at h
  unfold answerFrom at h
  split at h <;> cases h
  rfl

theorem sliceOf_of_mem_tokenize {rules : List Rule} {source : String} {tokens : List Token}
    (h : tokenize rules source = .ok tokens) {t : Token} (ht : t ∈ tokens) : t.SliceOf 0 source.toList := by
  rw [eq_survivors_of_tokenize h] at ht
  exact sliceOf_of_mem_survivors ht

/-- The two answers of a table, with what is known of the survivors in each case. -/
theorem tokenize_cases (rules : List Rule) (source : String) :
    (tokenize rules source = .ok (survivors rules source.toList) ∧
      Tiles 0 source.utf8ByteSize (survivors rules source.toList) ∧
      String.join ((survivors rules source.toList).map Token.text) = source) ∨
    ∃ before c after, source.toList = before ++ c :: after ∧
      tokenize rules source = .error (.uncovered (byteSize before) c) ∧
      claimedBytes rules source.toList (byteSize before) = false ∧
      ∀ b < byteSize before, claimedBytes rules source.toList b = true := by
  have hclaimed := claimedBytes_eq_true_iff rules source.toList
  have hsize := byteSize_toList source
  have hcases := firstUnclaimed_cases (survivors_ordered rules source.toList) fun _ h => sliceOf_of_mem_survivors h
  simp only [Nat.zero_add, hsize] at hcases
  rcases hcases with ⟨hnone, htiles, htexts⟩ | ⟨before, c, after, hsource, hsome, hcovered, hfree⟩
  · left
    refine ⟨by rw [tokenize_eq, answerFrom, hnone], htiles, ?_⟩
    rw [String.join_eq, List.map_map, ← List.flatMap_def]
    rw [← String.toList_inj, String.toList_ofList]
    exact htexts
  · right
    refine ⟨before, c, after, hsource, by rw [tokenize_eq, answerFrom, hsome], ?_, ?_⟩
    · rw [← Bool.not_eq_true]
      intro htrue
      obtain ⟨t, ht, hcovers⟩ := (hclaimed _).1 htrue
      exact hfree t ht hcovers
    · intro b hb
      exact (hclaimed b).2 (hcovered b (Nat.zero_le b) hb)

/-- For every table of rules and every source, the tokens tile the source or the first byte that is not claimed is
reported.  A byte is claimed if it lies in a match that survives.  The tokens are nonempty pieces of the source that
follow each other without a gap from its first byte to its last, and their texts make up the source; the byte that is
reported otherwise begins a character, which is reported with it.  Which of the two happens depends on whether all bytes
are claimed. -/
theorem tokenize_tiles (rules : List Rule) (source : String) :
    (∀ b, claimedBytes rules source.toList b = true ↔ ∃ t ∈ survivors rules source.toList, t.Covers b) ∧
    (∀ tokens, tokenize rules source = .ok tokens →
      Tiles 0 source.utf8ByteSize tokens ∧ (∀ t ∈ tokens, t.SliceOf 0 source.toList) ∧
      String.join (tokens.map Token.text) = source) ∧
    (∀ offset c, tokenize rules source = .error (.uncovered offset c) →
      (∃ before after, source.toList = before ++ c :: after ∧ byteSize before = offset) ∧
      claimedBytes rules source.toList offset = false ∧ ∀ b < offset, claimedBytes rules source.toList b = true) ∧
    ((∃ tokens, tokenize rules source = .ok tokens) ↔
      ∀ b < source.utf8ByteSize, claimedBytes rules source.toList b = true) ∧
    ((∃ offset c, tokenize rules source = .error (.uncovered offset c)) ↔
      ∃ b < source.utf8ByteSize, claimedBytes rules source.toList b = false) := by
  have hclaimed := claimedBytes_eq_true_iff rules source.toList
  have hcases := tokenize_cases rules source
  refine ⟨hclaimed, ?_⟩
  rcases hcases with ⟨hok, htiles, htexts⟩ | ⟨before, c, after, hsource, herror, hfree, hbefore⟩
  · have hall : ∀ b < source.utf8ByteSize, claimedBytes rules source.toList b = true := by
      intro b hb
      exact (hclaimed b).2 (htiles.exists_covers (Nat.zero_le b) hb)
    rw [hok]
    refine ⟨?_, ?_, ?_, ?_⟩
    · intro tokens htokens
      cases htokens
      exact ⟨htiles, fun t ht => sliceOf_of_mem_survivors ht, htexts⟩
    · intro offset c herror
      cases herror
    · exact ⟨fun _ => hall, fun _ => ⟨_, rfl⟩⟩
    · constructor
      · rintro ⟨offset, c, herror⟩
        cases herror
      · rintro ⟨b, hb, hfree⟩
        rw [hall b hb] at hfree
        cases hfree
  · have hlt : byteSize before < source.utf8ByteSize := by
      rw [← byteSize_toList, hsource, byteSize_append, byteSize]
      have hpos := c.utf8Size_pos
      omega
    rw [herror]
    refine ⟨?_, ?_, ?_, ?_⟩
    · intro tokens htokens
      cases htokens
    · intro offset c' heq
      cases heq
      exact ⟨⟨before, after, hsource, rfl⟩, hfree, hbefore⟩
    · constructor
      · rintro ⟨tokens, htokens⟩
        cases htokens
      · intro hall
        rw [hall _ hlt] at hfree
        cases hfree
    · exact ⟨fun _ => ⟨_, hlt, hfree⟩, fun _ => ⟨_, _, rfl⟩⟩

private def overlapping : List Rule :=
  [⟨.identifier, .text ['b', 'c']⟩, ⟨.string, .runOrNothing Char.isLower⟩, ⟨.int, .single (· == 'é')⟩]

/-- The run of letters that overlaps a stronger match is dropped whole, and its first letter is left over.  The empty
runs at the other places are dropped too. -/
theorem tokenize_overlapping :
    tokenize overlapping "bcébc" = .ok [⟨.identifier, "bc", 0⟩, ⟨.int, "é", 2⟩, ⟨.identifier, "bc", 4⟩] ∧
    Tiles 0 6 [⟨.identifier, "bc", 0⟩, ⟨.int, "é", 2⟩, ⟨.identifier, "bc", 4⟩] ∧
    tokenize overlapping "abcé" = .error (.uncovered 0 'a') ∧
    claimedBytes overlapping "abcé".toList 0 = false := by
  have hok : tokenize overlapping "bcébc" =
      .ok [⟨.identifier, "bc", 0⟩, ⟨.int, "é", 2⟩, ⟨.identifier, "bc", 4⟩] := by
    cbv
  have herror : tokenize overlapping "abcé" = .error (.uncovered 0 'a') := by
    cbv
  have htiles := ((tokenize_tiles overlapping "bcébc").2.1 _ hok).1
  have hfree := ((tokenize_tiles overlapping "abcé").2.2.1 0 'a' herror).2.1
  exact ⟨hok, htiles, herror, hfree⟩

end Lexer

end SinglePass
