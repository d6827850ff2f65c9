import SinglePass.Proofs.Claiming

/-!
# The tokens that survive

The lexer marks the bytes of the matches that it takes and sorts them at the end.  What it takes are the tokens that
survive when the matches of every rule are merged into those of the rules before it: a match survives if it shares no
byte with what stronger rules have kept (`mem_claim_iff`).  The state of the lexer after each rule holds the survivors
in some order (`Claims.Holds`), and sorted they are the survivors themselves, whose order is that of the source
(`mergeSort_of_perm`).

The first character outside all survivors is found by walking over both lists at once.  Since the survivors begin and
end at characters, it is enough to look at the first byte of every character: either the survivors follow each other
without a gap, or the walk stops at the first byte that nobody claims (`firstUnclaimed_cases`).  So the answer of the
lexer can be read off the survivors (`tokenize_eq`).
-/

namespace SinglePass

/-! ### Tokens as pieces of the source -/

namespace Token

/-- The byte lies in the token. -/
def Covers (t : Token) (b : Nat) : Prop := t.offset ≤ b ∧ b < t.stop

/-- One of the tokens ends before the other one begins. -/
def Apart (s t : Token) : Prop := s.stop ≤ t.offset ∨ t.stop ≤ s.offset

/-- The token is a piece of the characters, the first of which stands at the byte `offset`. -/
def SliceOf (t : Token) (offset : Nat) (cs : List Char) : Prop :=
  t.text ≠ "" ∧ ∃ before after, cs = before ++ (t.text.toList ++ after) ∧ t.offset = offset + byteSize before

namespace SliceOf

variable {t : Token} {offset : Nat} {cs : List Char}

theorem toList_ne_nil (h : t.SliceOf offset cs) : t.text.toList ≠ [] := by
  intro hnil
  exact h.1 (String.toList_inj.1 hnil)

theorem lt_stop (h : t.SliceOf offset cs) : t.offset < t.stop := by
  have hpos := byteSize_pos h.toList_ne_nil
  rw [stop_eq]
  omega

theorem offset_lt (h : t.SliceOf offset cs) : t.offset < offset + byteSize cs := by
  have hpos := byteSize_pos h.toList_ne_nil
  obtain ⟨-, before, after, rfl, hoffset⟩ := h
  rw [byteSize_append, byteSize_append]
  omega

theorem stop_le (h : t.SliceOf offset cs) : t.stop ≤ offset + byteSize cs := by
  obtain ⟨-, before, after, rfl, hoffset⟩ := h
  rw [stop_eq, byteSize_append, byteSize_append]
  omega

/-- A piece that begins behind the first part is a piece of the second. -/
theorem of_append {u v : List Char} (h : t.SliceOf offset (u ++ v)) (hle : offset + byteSize u ≤ t.offset) :
    t.SliceOf (offset + byteSize u) v := by
  obtain ⟨hne, before, after, hcs, hoffset⟩ := h
  obtain ⟨more, rfl, hv⟩ := exists_append_of_byteSize_le hcs (by omega)
  rw [byteSize_append] at hoffset
  exact ⟨hne, more, after, hv, by omega⟩

/-- A piece of a part is a piece of the whole. -/
theorem within {u v : List Char} (h : t.SliceOf (offset + byteSize u) cs) : t.SliceOf offset (u ++ (cs ++ v)) := by
  obtain ⟨hne, before, after, rfl, hoffset⟩ := h
  refine ⟨hne, u ++ before, after ++ v, ?_, ?_⟩
  · simp only [List.append_assoc]
  · rw [hoffset, byteSize_append, Nat.add_assoc]

end SliceOf

theorem apart_iff {s t : Token} (hs : s.offset < s.stop) (ht : t.offset < t.stop) :
    s.Apart t ↔ ∀ b, s.Covers b → ¬t.Covers b := by
  unfold Apart Covers
  constructor
  · intro h b hb hb'
    omega
  · intro h
    by_contra hover
    have hfirst := h s.offset
    have hsecond := h t.offset
    omega

end Token

/-! ### The matches of a rule -/

namespace Pattern

theorem mem_findAll {p : Pattern} {offset : Nat} {before : Option Char} {cs : List Char}
    {m : Nat × List Char} (h : m ∈ p.findAll offset before cs) :
    m.2 ≠ [] ∧ ∃ a b, cs = a ++ (m.2 ++ b) ∧ m.1 = offset + byteSize a := by
  fun_induction findAll p offset before cs with
  | case1 => cases h
  | case2 offset before c cs _ ih =>
    obtain ⟨hne, a, b, rfl, hoffset⟩ := ih h
    exact ⟨hne, c :: a, b, rfl, by rw [hoffset, byteSize, Nat.add_assoc]⟩
  | case3 offset before c cs n _ found ih =>
    have hsplit : c :: cs = found ++ cs.drop n := by simp [found]
    rcases List.mem_cons.1 h with rfl | h
    · refine ⟨by simp [found], [], cs.drop n, ?_, rfl⟩
      rw [List.nil_append]
      exact hsplit
    · obtain ⟨hne, a, b, hcs, hoffset⟩ := ih h
      refine ⟨hne, found ++ a, b, ?_, ?_⟩
      · rw [List.append_assoc, ← hcs]
        exact hsplit
      · rw [hoffset, byteSize_append, Nat.add_assoc]

theorem pairwise_findAll (p : Pattern) (offset : Nat) (before : Option Char) (cs : List Char) :
    (p.findAll offset before cs).Pairwise fun m m' => m.1 + byteSize m.2 ≤ m'.1 := by
  fun_induction findAll p offset before cs with
  | case1 => exact .nil
  | case2 offset before c cs _ ih => exact ih
  | case3 offset before c cs n _ found ih =>
    refine List.pairwise_cons.2 ⟨?_, ih⟩
    intro m hm
    exact le_of_mem_findAll hm

end Pattern

theorem Rule.sliceOf_of_mem_tokens {r : Rule} {source : List Char} {t : Token} (h : t ∈ r.tokens source) :
    t.SliceOf 0 source := by
  rw [tokens_eq] at h
  obtain ⟨m, hm, rfl⟩ := List.mem_map.1 h
  obtain ⟨hne, a, b, hcs, hoffset⟩ := Pattern.mem_findAll hm
  refine ⟨?_, a, b, ?_, hoffset⟩
  · intro hempty
    exact hne (by simpa using congrArg String.toList hempty)
  · rw [hcs, String.toList_ofList]

namespace Lexer

/-- The tokens are in the order of the source, and no two of them overlap. -/
def Ordered (ts : List Token) : Prop := ts.Pairwise fun s t => s.stop ≤ t.offset

theorem ordered_tokens (r : Rule) (source : List Char) : Ordered (r.tokens source) := by
  rw [Ordered, Rule.tokens_eq, List.pairwise_map]
  apply List.Pairwise.imp _ (r.pattern.pairwise_findAll 0 none source)
  intro m m' hm
  rw [Token.stop_mk]
  exact hm

/-! ### Claims in order -/

/-- The tokens of an ordered list are not before its first one. -/
theorem Ordered.le_of_mem {t u : Token} {ts : List Token} (h : Ordered (t :: ts)) (hu : u ∈ t :: ts) :
    t.offset ≤ u.offset := by
  rcases List.mem_cons.1 hu with rfl | hu
  · exact le_refl _
  · have hstop : t.offset ≤ t.stop := Nat.le_add_right _ _
    have hle := (List.pairwise_cons.1 h).1 u hu
    omega

theorem ordered_claim {kept found : List Token} (hk : Ordered kept) (hf : Ordered found) :
    Ordered (claim kept found) := by
  fun_induction claim kept found with
  | case1 found => exact hf
  | case2 kept => exact hk
  | case3 k kept m found hle ih =>
    refine List.pairwise_cons.2 ⟨?_, ih hk hf.of_cons⟩
    intro u hu
    rcases mem_claim hu with hu | hu
    · have := hk.le_of_mem hu
      omega
    · exact (List.pairwise_cons.1 hf).1 u hu
  | case4 k kept m found _ hle ih =>
    refine List.pairwise_cons.2 ⟨?_, ih hk.of_cons hf⟩
    intro u hu
    rcases mem_claim hu with hu | hu
    · exact (List.pairwise_cons.1 hk).1 u hu
    · have := hf.le_of_mem hu
      omega
  | case5 k kept m found _ _ ih => exact ih hk hf.of_cons

/-- A match is kept if it is apart from everything that was kept before. -/
theorem mem_claim_iff {kept found : List Token} {t : Token} (hk : Ordered kept) (hf : Ordered found) :
    t ∈ claim kept found ↔ t ∈ kept ∨ (t ∈ found ∧ ∀ k ∈ kept, t.Apart k) := by
  fun_induction claim kept found with
  | case1 found => simp
  | case2 kept => simp
  | case3 k kept m found hle ih =>
    -- the match ends before anything that is kept
    have hapart : ∀ u ∈ k :: kept, m.Apart u := by
      intro u hu
      have := hk.le_of_mem hu
      exact .inl (by omega)
    rw [List.mem_cons, ih hk hf.of_cons, List.mem_cons (b := m)]
    constructor
    · rintro (rfl | h | ⟨h, ha⟩)
      · exact .inr ⟨.inl rfl, hapart⟩
      · exact .inl h
      · exact .inr ⟨.inr h, ha⟩
    · rintro (h | ⟨rfl | h, ha⟩)
      · exact .inr (.inl h)
      · exact .inl rfl
      · exact .inr (.inr ⟨h, ha⟩)
  | case4 k kept m found _ hle ih =>
    -- all matches that are left begin behind the kept token
    have hapart : ∀ u ∈ m :: found, u.Apart k := by
      intro u hu
      have := hf.le_of_mem hu
      exact .inr (by omega)
    rw [List.mem_cons, ih hk.of_cons hf, List.mem_cons (b := k), or_assoc, List.forall_mem_cons]
    constructor
    · rintro (rfl | h | ⟨h, ha⟩)
      · exact .inl rfl
      · exact .inr (.inl h)
      · exact .inr (.inr ⟨h, hapart t h, ha⟩)
    · rintro (rfl | h | ⟨h, -, ha⟩)
      · exact .inl rfl
      · exact .inr (.inl h)
      · exact .inr (.inr ⟨h, ha⟩)
  | case5 k kept m found hbefore hbehind ih =>
    have hover : ¬m.Apart k := by
      rintro (h | h)
      · exact hbefore h
      · exact hbehind h
    rw [ih hk hf.of_cons, List.mem_cons (b := m)]
    constructor
    · rintro (h | ⟨h, ha⟩)
      · exact .inl h
      · exact .inr ⟨.inr h, ha⟩
    · rintro (h | ⟨rfl | h, ha⟩)
      · exact .inl h
      · exact absurd (ha k List.mem_cons_self) hover
      · exact .inr ⟨h, ha⟩

theorem survivors_concat (rules : List Rule) (r : Rule) (source : List Char) :
    survivors (rules ++ [r]) source = claim (survivors rules source) (r.tokens source) := by
  simp [survivors]

theorem survivors_ordered (rules : List Rule) (source : List Char) : Ordered (survivors rules source) := by
  induction rules using List.reverseRecOn with
  | nil => exact .nil
  | append_singleton rules r ih =>
    rw [survivors_concat]
    exact ordered_claim ih (ordered_tokens r source)

theorem sliceOf_of_mem_survivors {rules : List Rule} {source : List Char} {t : Token}
    (h : t ∈ survivors rules source) : t.SliceOf 0 source := by
  induction rules using List.reverseRecOn with
  | nil => cases h
  | append_singleton rules r ih =>
    rw [survivors_concat] at h
    rcases mem_claim h with h | h
    · exact ih h
    · exact Rule.sliceOf_of_mem_tokens h

/-! ### Gaps -/

/-- The tokens follow each other without a gap from one byte to another. -/
def Tiles (start stop : Nat) : List Token → Prop
  | [] => start = stop
  | t :: ts => t.offset = start ∧ Tiles t.stop stop ts

theorem Tiles.exists_covers {start stop : Nat} {ts : List Token} (h : Tiles start stop ts) {b : Nat}
    (hstart : start ≤ b) (hstop : b < stop) : ∃ t ∈ ts, t.Covers b := by
  induction ts generalizing start with
  | nil =>
    have heq : start = stop := h
    omega
  | cons t ts ih =>
    obtain ⟨hoffset, hrest⟩ := h
    by_cases hb : b < t.stop
    · exact ⟨t, List.mem_cons_self, by omega, hb⟩
    · obtain ⟨u, hu, hcovers⟩ := ih hrest (by omega)
      exact ⟨u, List.mem_cons_of_mem t hu, hcovers⟩

/-- Either the tokens leave no gap, or the first character that is in none of them is found. -/
theorem firstUnclaimed_cases {offset : Nat} {cs : List Char} {ts : List Token} (ho : Ordered ts)
    (hs : ∀ t ∈ ts, t.SliceOf offset cs) :
    (firstUnclaimed offset cs ts = none ∧ Tiles offset (offset + byteSize cs) ts ∧
      ts.flatMap (fun t => t.text.toList) = cs) ∨
    ∃ before c after, cs = before ++ c :: after ∧
      firstUnclaimed offset cs ts = some (offset + byteSize before, c) ∧
      (∀ b, offset ≤ b → b < offset + byteSize before → ∃ t ∈ ts, t.Covers b) ∧
      ∀ t ∈ ts, ¬t.Covers (offset + byteSize before) := by
  induction ts generalizing offset cs with
  | nil =>
    cases cs with
    | nil => exact .inl ⟨rfl, rfl, rfl⟩
    | cons c cs =>
      refine .inr ⟨[], c, cs, rfl, rfl, ?_, by simp⟩
      intro b hle hlt
      simp only [byteSize] at hlt
      omega
  | cons t ts ih =>
    obtain ⟨hne, before, after, hcs, hoffset⟩ := hs t List.mem_cons_self
    have hstop := t.stop_eq
    cases before with
    | nil =>
      -- the token begins here, and the rest of the tokens behind it
      simp only [byteSize, Nat.add_zero] at hoffset
      rw [List.nil_append] at hcs
      have htext : t.text.toList ≠ [] := (hs t List.mem_cons_self).toList_ne_nil
      rw [hoffset] at hstop
      have hwalk : firstUnclaimed offset cs (t :: ts) =
          firstUnclaimed (offset + byteSize t.text.toList) after ts := by
        rw [hcs, firstUnclaimed_cons htext (by omega) hstop]
      have hrest : ∀ u ∈ ts, u.SliceOf (offset + byteSize t.text.toList) after := by
        intro u hu
        have hu' := hs u (List.mem_cons_of_mem t hu)
        rw [hcs] at hu'
        have hle := (List.pairwise_cons.1 ho).1 u hu
        exact hu'.of_append (by omega)
      rcases ih ho.of_cons hrest with ⟨hnone, htiles, htexts⟩ | ⟨before, c, rest, hafter, hsome, hcovered, hfree⟩
      · left
        refine ⟨by rw [hwalk, hnone], ⟨hoffset, ?_⟩, ?_⟩
        · rw [hstop, hcs, byteSize_append, ← Nat.add_assoc]
          exact htiles
        · rw [List.flatMap_cons, htexts, hcs]
      · right
        refine ⟨t.text.toList ++ before, c, rest, ?_, ?_, ?_, ?_⟩
        · rw [hcs, hafter, List.append_assoc]
        · rw [hwalk, hsome, byteSize_append, Nat.add_assoc]
        · intro b hle hlt
          rw [byteSize_append] at hlt
          by_cases hb : b < t.stop
          · exact ⟨t, List.mem_cons_self, by omega, hb⟩
          · obtain ⟨u, hu, hcovers⟩ := hcovered b (by omega) (by omega)
            exact ⟨u, List.mem_cons_of_mem t hu, hcovers⟩
        · rw [byteSize_append, ← Nat.add_assoc]
          intro u hu hcovers
          rcases List.mem_cons.1 hu with rfl | hu
          · have hlt := hcovers.2
            omega
          · exact hfree u hu hcovers
    | cons c before =>
      -- nothing begins before the first token
      have hpos := c.utf8Size_pos
      simp only [byteSize] at hoffset
      have hlt : ∀ u ∈ t :: ts, offset < u.offset := by
        intro u hu
        have hle := ho.le_of_mem hu
        omega
      refine .inr ⟨[], c, before ++ (t.text.toList ++ after), hcs, ?_, ?_, ?_⟩
      · rw [hcs, List.cons_append, firstUnclaimed_of_lt hlt]
        rfl
      · intro b hle hb
        simp only [byteSize] at hb
        omega
      · intro u hu hcovers
        have hle := hcovers.1
        have := hlt u hu
        simp only [byteSize] at hle
        omega

/-! ### Marked bytes -/

/-- The bytes of some tokens are those that are claimed. -/
def ClaimedBy (claimed : Nat → Bool) (ts : List Token) : Prop := ∀ b, claimed b = true ↔ ∃ t ∈ ts, t.Covers b

theorem any_claimed_iff {claimed : Nat → Bool} {kept : List Token} {t : Token} (hc : ClaimedBy claimed kept)
    (hk : ∀ k ∈ kept, k.offset < k.stop) (ht : t.offset < t.stop) :
    (List.range' t.offset t.text.utf8ByteSize).any claimed = true ↔ ∃ k ∈ kept, ¬t.Apart k := by
  have hrange : ∀ b, b ∈ List.range' t.offset t.text.utf8ByteSize ↔ t.Covers b := by
    intro b
    rw [List.mem_range'_1]
    rfl
  rw [List.any_eq_true]
  constructor
  · rintro ⟨b, hb, hclaimed⟩
    obtain ⟨k, hkept, hcovers⟩ := (hc b).1 hclaimed
    refine ⟨k, hkept, fun hapart => ?_⟩
    exact (Token.apart_iff ht (hk k hkept)).1 hapart b ((hrange b).1 hb) hcovers
  · rintro ⟨k, hkept, hover⟩
    rw [Token.apart_iff ht (hk k hkept)] at hover
    push Not at hover
    obtain ⟨b, hb, hcovers⟩ := hover
    exact ⟨b, (hrange b).2 hb, (hc b).2 ⟨k, hkept, hcovers⟩⟩

/-- Marking bytes leaves the others as they are. -/
theorem getD_mark (bytes : List Nat) (claimed : Array Bool) (b : Nat) :
    (bytes.foldl (fun claimed b => claimed.setIfInBounds b true) claimed).getD b false =
      (claimed.getD b false || (decide (b ∈ bytes) && decide (b < claimed.size))) := by
  induction bytes generalizing claimed with
  | nil => simp
  | cons a bytes ih =>
    have hset : (claimed.setIfInBounds a true).getD b false =
        (claimed.getD b false || (decide (b = a) && decide (b < claimed.size))) := by
      simp only [Array.getD_eq_getD_getElem?, Array.getElem?_setIfInBounds]
      by_cases hab : a = b
      · subst hab
        by_cases hlt : a < claimed.size <;> simp [hlt]
      · simp [hab, Ne.symm hab]
    rw [List.foldl_cons, ih, hset, Array.size_setIfInBounds]
    simp only [List.mem_cons, Bool.decide_or]
    cases claimed.getD b false <;> cases decide (b = a) <;> cases decide (b < claimed.size) <;> simp

theorem size_mark (bytes : List Nat) (claimed : Array Bool) :
    (bytes.foldl (fun claimed b => claimed.setIfInBounds b true) claimed).size = claimed.size := by
  induction bytes generalizing claimed with
  | nil => rfl
  | cons a bytes ih => rw [List.foldl_cons, ih, Array.size_setIfInBounds]

/-! ### The loop over the rules -/

namespace Claims

variable {c : Claims} {size : Nat} {kept found : List Token} {t : Token}

/-- The tokens were taken in some order, and their bytes are claimed. -/
structure Holds (c : Claims) (size : Nat) (kept : List Token) : Prop where
  size_eq : c.claimed.size = size
  claimedBy : ClaimedBy (fun b => c.claimed.getD b false) kept
  perm : c.taken.toList.Perm kept

theorem holds_start (size : Nat) : (start size).Holds size [] where
  size_eq := by simp [start]
  claimedBy b := by
    simp only [start, Array.getD_eq_getD_getElem?, Array.getElem?_replicate]
    split <;> simp
  perm := by simp [start]

theorem Holds.of_perm {kept' : List Token} (h : c.Holds size kept) (hp : kept.Perm kept') : c.Holds size kept' where
  size_eq := h.size_eq
  claimedBy b := by
    rw [h.claimedBy b]
    simp only [hp.mem_iff]
  perm := h.perm.trans hp

theorem offer_of_empty (h : t.text = "") : c.offer t = c := by
  unfold offer
  exact if_pos (.inl h)

/-- A match that overlaps a token is dropped. -/
theorem Holds.offer_of_overlap (h : c.Holds size kept) (hk : ∀ k ∈ kept, k.offset < k.stop) (ht : t.offset < t.stop)
    (hover : ∃ k ∈ kept, ¬t.Apart k) : c.offer t = c := by
  unfold offer
  exact if_pos (.inr ((any_claimed_iff h.claimedBy hk ht).2 hover))

/-- A match that is apart from all tokens is taken. -/
theorem Holds.offer_of_apart (h : c.Holds size kept) (hk : ∀ k ∈ kept, k.offset < k.stop) (ht : t.offset < t.stop)
    (hsize : t.stop ≤ size) (hapart : ∀ k ∈ kept, t.Apart k) : (c.offer t).Holds size (t :: kept) := by
  have hne : t.text ≠ "" := by
    intro hempty
    simp [Token.stop, hempty] at ht
  have hfree : ¬(List.range' t.offset t.text.utf8ByteSize).any (fun b => c.claimed.getD b false) = true := by
    intro hany
    obtain ⟨k, hkept, hover⟩ := (any_claimed_iff h.claimedBy hk ht).1 hany
    exact hover (hapart k hkept)
  have hoffer : c.offer t = ⟨(List.range' t.offset t.text.utf8ByteSize).foldl
      (fun claimed b => claimed.setIfInBounds b true) c.claimed, c.taken.push t⟩ := by
    unfold offer
    exact if_neg (not_or.2 ⟨hne, hfree⟩)
  rw [hoffer]
  refine ⟨?_, fun b => ?_, ?_⟩
  · rw [size_mark, h.size_eq]
  · -- the bytes of the match are bytes of the source
    have hbytes : b ∈ List.range' t.offset t.text.utf8ByteSize ∧ b < c.claimed.size ↔ t.Covers b := by
      rw [List.mem_range'_1, h.size_eq]
      unfold Token.Covers Token.stop at *
      omega
    dsimp only
    rw [getD_mark, List.exists_mem_cons_iff, ← hbytes, ← h.claimedBy b]
    simp only [Bool.or_eq_true, Bool.and_eq_true, decide_eq_true_eq]
    exact or_comm
  · rw [Array.toList_push]
    exact (List.perm_append_singleton t _).trans (h.perm.cons t)

/-- When matches are offered in the order of the source, those that are apart from everything held before are taken. -/
theorem Holds.foldl_offer (h : c.Holds size kept) (hk : ∀ k ∈ kept, k.offset < k.stop) (hnodup : kept.Nodup)
    (hf : ∀ m ∈ found, m.offset < m.stop ∧ m.stop ≤ size) (ho : Ordered found) :
    ∃ kept', (found.foldl offer c).Holds size kept' ∧ kept'.Nodup ∧
      ∀ t, t ∈ kept' ↔ t ∈ kept ∨ (t ∈ found ∧ ∀ k ∈ kept, t.Apart k) := by
  induction found generalizing c kept with
  | nil => exact ⟨kept, h, hnodup, by simp⟩
  | cons m found ih =>
    obtain ⟨⟨hlt, hsize⟩, hf'⟩ := List.forall_mem_cons.1 hf
    have hrest : ∀ u ∈ found, u.Apart m := fun u hu => .inr ((List.pairwise_cons.1 ho).1 u hu)
    rw [List.foldl_cons]
    by_cases hover : ∃ k ∈ kept, ¬m.Apart k
    · rw [h.offer_of_overlap hk hlt hover]
      obtain ⟨kept', hholds, hnodup', hmem⟩ := ih h hk hnodup hf' ho.of_cons
      refine ⟨kept', hholds, hnodup', fun t => ?_⟩
      rw [hmem t]
      refine or_congr_right ⟨fun ⟨ht, ha⟩ => ⟨List.mem_cons_of_mem m ht, ha⟩, ?_⟩
      rintro ⟨ht, ha⟩
      rcases List.mem_cons.1 ht with rfl | ht
      · obtain ⟨k, hkept, hk'⟩ := hover
        exact absurd (ha k hkept) hk'
      · exact ⟨ht, ha⟩
    · push Not at hover
      have hnew : m ∉ kept := by
        intro hmem
        rcases hover m hmem with hself | hself <;> omega
      obtain ⟨kept', hholds, hnodup', hmem⟩ := ih (h.offer_of_apart hk hlt hsize hover)
        (List.forall_mem_cons.2 ⟨hlt, hk⟩) (List.nodup_cons.2 ⟨hnew, hnodup⟩) hf' ho.of_cons
      refine ⟨kept', hholds, hnodup', fun t => ?_⟩
      -- the matches behind this one do not meet it
      rw [hmem t, List.mem_cons, List.mem_cons, List.forall_mem_cons]
      constructor
      · rintro ((rfl | ht) | ⟨ht, -, ha⟩)
        · exact .inr ⟨.inl rfl, hover⟩
        · exact .inl ht
        · exact .inr ⟨.inr ht, ha⟩
      · rintro (ht | ⟨rfl | ht, ha⟩)
        · exact .inl (.inr ht)
        · exact .inl (.inl rfl)
        · exact .inr ⟨ht, hrest t ht, ha⟩

/-- Empty matches change nothing. -/
theorem foldl_offer_found (c : Claims) (r : Rule) (source : List Char) :
    (r.found source).foldl offer c = (r.tokens source).foldl offer c := by
  rw [Rule.tokens, List.foldl_filter]
  congr 1
  funext c t
  by_cases h : t.text = ""
  · rw [offer_of_empty h, if_neg (by simpa using h)]
  · rw [if_pos (by simpa using h)]

end Claims

theorem Ordered.nodup {ts : List Token} (ho : Ordered ts) (hs : ∀ t ∈ ts, t.offset < t.stop) : ts.Nodup := by
  apply List.Pairwise.imp_of_mem _ ho
  rintro s t hmem - hle rfl
  have := hs s hmem
  omega

/-- No two tokens begin at the same place. -/
theorem Ordered.eq_of_offset_eq {ts : List Token} (ho : Ordered ts) (hk : ∀ t ∈ ts, t.offset < t.stop) {s t : Token}
    (hs : s ∈ ts) (ht : t ∈ ts) (h : s.offset = t.offset) : s = t := by
  induction ts with
  | nil => cases hs
  | cons u ts ih =>
    obtain ⟨hu, hts⟩ := List.forall_mem_cons.1 hk
    have hbehind := (List.pairwise_cons.1 ho).1
    rcases List.mem_cons.1 hs with rfl | hs' <;> rcases List.mem_cons.1 ht with rfl | ht'
    · rfl
    · have := hbehind t ht'
      omega
    · have := hbehind s hs'
      omega
    · exact ih ho.of_cons hts hs' ht'

theorem lt_stop_of_mem_survivors {rules : List Rule} {source : List Char} :
    ∀ t ∈ survivors rules source, t.offset < t.stop := fun _ ht => (sliceOf_of_mem_survivors ht).lt_stop

/-- After all rules the lexer holds the tokens that survive. -/
theorem holds_claims (rules : List Rule) (source : List Char) :
    (claims rules source).Holds (byteSize source) (survivors rules source) := by
  induction rules using List.reverseRecOn with
  | nil => exact Claims.holds_start _
  | append_singleton rules r ih =>
    have hfound : ∀ m ∈ r.tokens source, m.offset < m.stop ∧ m.stop ≤ byteSize source := by
      intro m hm
      have hslice := Rule.sliceOf_of_mem_tokens hm
      have hle := hslice.stop_le
      rw [Nat.zero_add] at hle
      exact ⟨hslice.lt_stop, hle⟩
    have hordered := survivors_ordered rules source
    obtain ⟨kept', hholds, hnodup, hmem⟩ := ih.foldl_offer lt_stop_of_mem_survivors
      (hordered.nodup lt_stop_of_mem_survivors) hfound (ordered_tokens r source)
    have hclaims : claims (rules ++ [r]) source = (r.tokens source).foldl Claims.offer (claims rules source) := by
      rw [← Claims.foldl_offer_found]
      simp [claims]
    have hsurvivors := (survivors_ordered (rules ++ [r]) source).nodup lt_stop_of_mem_survivors
    rw [hclaims]
    refine hholds.of_perm ((List.perm_ext_iff_of_nodup hnodup hsurvivors).2 fun t => ?_)
    rw [hmem t, survivors_concat, mem_claim_iff hordered (ordered_tokens r source)]

/-! ### The answer of the lexer -/

/-- Tokens in the order of the source are what sorting makes of them. -/
theorem mergeSort_of_perm {ts kept : List Token} (ho : Ordered kept) (hk : ∀ k ∈ kept, k.offset < k.stop)
    (hp : ts.Perm kept) : ts.mergeSort (fun s t => decide (s.offset ≤ t.offset)) = kept := by
  have hsorted : (ts.mergeSort fun s t => decide (s.offset ≤ t.offset)).Pairwise fun s t => s.offset ≤ t.offset := by
    refine (List.pairwise_mergeSort ?_ ?_ ts).imp fun h => of_decide_eq_true h
    · simp only [decide_eq_true_eq]
      omega
    · simp only [Bool.or_eq_true, decide_eq_true_eq]
      omega
  have hkept : kept.Pairwise fun s t => s.offset ≤ t.offset := by
    refine ho.imp fun {s t} hle => ?_
    have : s.offset ≤ s.stop := Nat.le_add_right _ _
    omega
  have hperm := (List.mergeSort_perm ts fun s t => decide (s.offset ≤ t.offset)).trans hp
  refine List.Perm.eq_of_pairwise (fun s t hs ht hst hts => ?_) hsorted hkept hperm
  exact ho.eq_of_offset_eq hk (hperm.mem_iff.1 hs) ht (by omega)

theorem firstFree_append {claimed : Array Bool} {offset : Nat} {u : List Char} (v : List Char)
    (h : ∀ b, offset ≤ b → b < offset + byteSize u → claimed.getD b false = true) :
    firstFree claimed offset (u ++ v) = firstFree claimed (offset + byteSize u) v := by
  induction u generalizing offset with
  | nil => simp [byteSize]
  | cons c u ih =>
    have hpos := c.utf8Size_pos
    simp only [byteSize] at h ⊢
    have hfirst := h offset (le_refl _) (by omega)
    rw [List.cons_append, firstFree, if_pos hfirst, ih fun b hle hlt => h b (by omega) (by omega), Nat.add_assoc]

/-- The first byte that is not claimed is the first that lies in none of the tokens. -/
theorem firstFree_eq {claimed : Array Bool} {offset : Nat} {cs : List Char} {ts : List Token} (ho : Ordered ts)
    (hs : ∀ t ∈ ts, t.SliceOf offset cs) (hc : ClaimedBy (fun b => claimed.getD b false) ts) :
    firstFree claimed offset cs = firstUnclaimed offset cs ts := by
  rcases firstUnclaimed_cases ho hs with ⟨hnone, htiles, -⟩ | ⟨before, c, after, rfl, hsome, hcovered, hfree⟩
  · rw [hnone, ← List.append_nil cs,
      firstFree_append [] fun b hle hlt => (hc b).2 (htiles.exists_covers hle hlt)]
    rfl
  · have hnot : ¬claimed.getD (offset + byteSize before) false = true := by
      intro hclaimed
      obtain ⟨t, ht, hcovers⟩ := (hc _).1 hclaimed
      exact hfree t ht hcovers
    rw [hsome, firstFree_append (c :: after) fun b hle hlt => (hc b).2 (hcovered b hle hlt), firstFree, if_neg hnot]

/-- The answer for these survivors: all of them, or the first character that lies in none. -/
def answerFrom (offset : Nat) (cs : List Char) (ts : List Token) : Except Error (List Token) :=
  match firstUnclaimed offset cs ts with
  | some (offset, c) => .error (.uncovered offset c)
  | none => .ok ts

/-- The tokens are the survivors: what the loop over all rules and matches takes, empty matches left out and the rest
sorted by their offsets, are the tokens that survive the table, and the error is the first character in none of them. -/
theorem tokenize_eq (rules : List Rule) (source : String) :
    tokenize rules source = answerFrom 0 source.toList (survivors rules source.toList) := by
  have hholds := holds_claims rules source.toList
  have hordered := survivors_ordered rules source.toList
  have hsort := mergeSort_of_perm hordered lt_stop_of_mem_survivors hholds.perm
  have hfree := firstFree_eq hordered (fun t ht => sliceOf_of_mem_survivors ht) hholds.claimedBy
  simp only [tokenize, hfree, hsort]
  rfl

end Lexer

end SinglePass
