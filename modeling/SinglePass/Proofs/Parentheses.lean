import SinglePass.Proofs.DepthLimit

/-!
# Parentheses

The depth of a machine is the number of opening parentheses that it has read, less the closing ones
(`Machine.depth_eq_surplus`).  This is so although the count is kept in two places, the open frames and the mode in
which a callee is expected, because one token moves at most one parenthesis from the one to the other
(`Machine.depth_of_step`), and array literals hold no parentheses.

So an evaluation that comes to its end knows how many parentheses are left open, and one that does not come to its end
because of a parenthesis has met a closing one too many, and before it none.
-/

namespace SinglePass

namespace Token

def openParens (ts : List Token) : Nat := ts.countP fun t => t.kind == .openParen

def closeParens (ts : List Token) : Nat := ts.countP fun t => t.kind == .closeParen

/-- The opening parentheses less the closing ones. -/
def surplus (ts : List Token) : Int := openParens ts - closeParens ts

theorem openParens_cons (t : Token) (ts : List Token) :
    openParens (t :: ts) = openParens ts + if t.kind = .openParen then 1 else 0 := by
  simp [openParens, List.countP_cons]

theorem surplus_concat (ts : List Token) (t : Token) :
    surplus (ts ++ [t]) =
      surplus ts + (if t.kind = .openParen then 1 else 0) - if t.kind = .closeParen then 1 else 0 := by
  have hopen : openParens (ts ++ [t]) = openParens ts + if t.kind = .openParen then 1 else 0 := by
    simp [openParens, List.countP_append, List.countP_singleton]
  have hclose : closeParens (ts ++ [t]) = closeParens ts + if t.kind = .closeParen then 1 else 0 := by
    simp [closeParens, List.countP_append, List.countP_singleton]
  unfold surplus
  rw [hopen, hclose]
  split_ifs <;> omega

end Token

namespace Machine

variable {registry : Registry} {limit : Nat} {m m' : Machine} {t : Token} {ts : List Token}

/-! ### Depth -/

theorem depth_of_callee (h : m.mode = .callee) : m.depth = m.frames.length + 1 := by
  unfold depth; rw [h]

theorem depth_receive (m : Machine) (v : Value) : (m.receive v).depth = m.depth := by
  unfold depth
  rw [mode_receive, length_frames_receive]

theorem kind_of_arrayStep {opened : Nat} {stack : List (List Value)} {progress : ArrayLiteral.Progress}
    (h : ArrayLiteral.step opened limit stack t = .ok progress) : t.kind ≠ .openParen ∧ t.kind ≠ .closeParen := by
  constructor <;> intro hk <;> simp [ArrayLiteral.step, hk] at h

/-- A step opens or closes the parenthesis that it reads, and no other. -/
theorem depth_of_step (h : Step registry limit m t m') :
    m'.depth + (if t.kind = .closeParen then 1 else 0) = m.depth + if t.kind = .openParen then 1 else 0 := by
  cases h with
  | blank hk => simp [hk]
  | enter hm hk _ =>
    rw [depth_of_callee hm, depth_of_operand rfl]
    simp [hk]
  | item hm _ hs =>
    obtain ⟨ho, hc⟩ := kind_of_arrayStep hs
    rw [depth_of_array hm, depth_of_array rfl, if_neg ho, if_neg hc]
  | closeArray hm _ hs =>
    obtain ⟨ho, hc⟩ := kind_of_arrayStep hs
    rw [depth_receive, depth_of_array hm, depth_of_operand rfl, if_neg ho, if_neg hc]
  | @takeName f rest hm hf _ hk =>
    have hlen : m.frames.length = rest.length + 1 := by rw [hf]; rfl
    rw [depth_of_operand hm, depth_of_operand (by exact hm), hlen]
    simp [hk]
  | openParen hm _ hk _ =>
    rw [depth_of_operand hm, depth_of_callee rfl]
    simp [hk]
  | openBracket hm _ hk _ =>
    rw [depth_of_operand hm, depth_of_array rfl]
    simp [hk]
  | name _ _ hk _ =>
    rw [depth_receive]
    simp [hk]
  | literal _ _ hl =>
    have hlit := literal?_isSome_iff.1 (Option.isSome_of_eq_some hl)
    have ho : t.kind ≠ .openParen := fun hk => by simp [hk, Token.Kind.isLiteral] at hlit
    have hc : t.kind ≠ .closeParen := fun hk => by simp [hk, Token.Kind.isLiteral] at hlit
    rw [depth_receive, if_neg ho, if_neg hc]
  | @close f rest v hm hk hf _ =>
    have hlen : m.frames.length = rest.length + 1 := by rw [hf]; rfl
    rw [depth_receive, depth_of_operand hm, depth_of_operand (by exact hm), hlen]
    simp [hk]

/-- The depth is the number of parentheses that the tokens leave open. -/
theorem depth_eq_surplus (h : (run registry limit .start ts).result = .ok m) : (m.depth : Int) = Token.surplus ts := by
  refine reached_induction (P := fun ts m => (m.depth : Int) = Token.surplus ts) rfl ?_ h
  intro ts m t m' hm hs
  have hstep := depth_of_step hs
  rw [Token.surplus_concat, ← hm]
  split_ifs at hstep ⊢ <;> omega

/-- What a run takes has no beginning with more closing parentheses than opening ones. -/
theorem surplus_nonneg_of_run (h : (run registry limit .start ts).result = .ok m) {p : List Token} (hp : p <+: ts) :
    0 ≤ Token.surplus p := by
  obtain ⟨rest, rfl⟩ := hp
  rw [result_run_append, bind_eq_ok_iff] at h
  obtain ⟨m', hrun, -⟩ := h
  rw [← depth_eq_surplus hrun]
  omega

/-! ### Errors -/

theorem outcome_eq_unbalanced {depth : Int} (h : m.outcome = .error (.unbalanced depth)) :
    0 < depth ∧ depth = m.depth := by
  rcases error_of_outcome h with he | ⟨hd, he⟩ | he | ⟨_, he⟩ <;> cases he
  exact ⟨by omega, rfl⟩

/-- A machine that reports unbalanced parentheses has none open and reads a closing one. -/
theorem closes_of_unbalanced {depth : Int} (hreg : registry.Avoids (·.category = .parse))
    (hrun : (run registry limit .start ts).result = .ok m) (h : Fails registry limit m t (.unbalanced depth)) :
    depth = -1 ∧ t.kind = .closeParen ∧ m.depth = 0 := by
  -- `cases` needs a variable in the place of the error
  generalize he : Error.unbalanced depth = e at h
  cases h with
  | item _ _ hs =>
    subst he
    rcases arrayStep_eq_error hs with ⟨-, -, he⟩ | ⟨-, he⟩ | ⟨-, he⟩ | ⟨-, he⟩ | ⟨-, he⟩ <;> cases he
  | literal _ _ hl =>
    rw [literal?_eq_error hl] at he
    cases he
  | unbalanced hm hk hf =>
    cases he
    refine ⟨rfl, hk, ?_⟩
    rw [depth_of_operand hm, hf]
    rfl
  | result hm _ hf hv =>
    subst he
    exact absurd rfl (Frame.category_of_result hreg (resolved_of_run hrun hm hf) hv)
  | noCallee | unknownCallee | noBinder | tooDeep | strayBracket | unbound => cases he

/-- A run fails because of unbalanced parentheses at the first closing one that has no partner. -/
theorem surplus_of_unbalanced {depth : Int} (hreg : registry.Avoids (·.category = .parse))
    (h : (run registry limit .start ts).result = .error (.unbalanced depth)) :
    depth = -1 ∧ ∃ p t, p ++ [t] <+: ts ∧ t.kind = .closeParen ∧ Token.surplus (p ++ [t]) = -1 ∧
      ∀ q, q <+: p → 0 ≤ Token.surplus q := by
  obtain ⟨p, t, rest, m, rfl, hrun, hfails⟩ := fails_of_run h
  obtain ⟨hd, hk, hzero⟩ := closes_of_unbalanced hreg hrun hfails
  refine ⟨hd, p, t, ⟨rest, by simp⟩, hk, ?_, fun q hq => surplus_nonneg_of_run hrun hq⟩
  have hp := depth_eq_surplus hrun
  rw [Token.surplus_concat, ← hp, hzero]
  simp [hk]

end Machine

/-- Parentheses are counted.  After all tokens that are read without an error the depth of the machine is the number of
opening parentheses less that of closing ones.  So in tokens with a value, or with several, each opening parenthesis is
closed and each closing one was opened before.  Where parentheses are reported as unbalanced, the number says how many
are open at the end, or it is minus one and a closing one had no partner, for the first time. -/
theorem runTokens_parens (i : Interpreter) (ts : List Token) (hreg : i.registry.Avoids (·.category = .parse)) :
    (∀ p m, p <+: ts → (Machine.run i.registry i.config.limit.toNat .start p).result = .ok m →
      (m.depth : Int) = Token.openParens p - Token.closeParens p) ∧
    ((∃ v, i.runTokens ts = .ok v) ∨ (∃ n, i.runTokens ts = .error (.manyExpressions n)) →
      Token.openParens ts = Token.closeParens ts ∧ ∀ p, p <+: ts → Token.closeParens p ≤ Token.openParens p) ∧
    ∀ depth, i.runTokens ts = .error (.unbalanced depth) →
      0 < depth ∧ depth = Token.surplus ts ∨
      depth = -1 ∧ ∃ p t, p ++ [t] <+: ts ∧ t.kind = .closeParen ∧ Token.surplus (p ++ [t]) = -1 ∧
        ∀ q, q <+: p → 0 ≤ Token.surplus q := by
  refine ⟨fun p m _ hrun => Machine.depth_eq_surplus hrun, fun h => ?_, fun depth h => ?_⟩
  · obtain ⟨m, hrun, hm, hf, -⟩ := i.finished_of_runTokens (h.imp_right fun hmany => ⟨hreg, hmany⟩)
    have hzero : m.depth = 0 := by rw [Machine.depth_of_operand hm, hf, List.length_nil]
    have hall := Machine.depth_eq_surplus hrun
    unfold Token.surplus at hall
    refine ⟨by omega, fun p hp => ?_⟩
    have hprefix := Machine.surplus_nonneg_of_run hrun hp
    unfold Token.surplus at hprefix
    omega
  · rw [i.runTokens_eq, bind_eq_error_iff] at h
    rcases h with h | ⟨m, hrun, ho⟩
    · exact .inr (Machine.surplus_of_unbalanced hreg h)
    · obtain ⟨hpos, hdepth⟩ := Machine.outcome_eq_unbalanced ho
      exact .inl ⟨hpos, hdepth.trans (Machine.depth_eq_surplus hrun)⟩

/-- The tokens of `(def x (`. -/
private def twoOpen : List Token :=
  [⟨.openParen, "(", 0⟩, ⟨.identifier, "def", 1⟩, ⟨.identifier, "x", 5⟩, ⟨.openParen, "(", 7⟩]

/-- The tokens of `true)(`. -/
private def oneClosed : List Token := [⟨.bool, "true", 0⟩, ⟨.closeParen, ")", 4⟩, ⟨.openParen, "(", 5⟩]

/-- A parenthesis whose callee is still expected counts as open.  One that is closed without a partner is reported at
once, although as many are opened in the whole. -/
theorem runTokens_parens_twoOpen :
    Interpreter.runTokens {} twoOpen = .error (.unbalanced 2) ∧ Token.surplus twoOpen = 2 ∧
    Interpreter.runTokens {} oneClosed = .error (.unbalanced (-1)) ∧
    ∃ p t, p ++ [t] <+: oneClosed ∧ t.kind = .closeParen ∧ Token.surplus (p ++ [t]) = -1 ∧
      ∀ q, q <+: p → 0 ≤ Token.surplus q := by
  have htwo : Interpreter.runTokens {} twoOpen = .error (.unbalanced 2) := rfl
  have hone : Interpreter.runTokens {} oneClosed = .error (.unbalanced (-1)) := rfl
  refine ⟨htwo, ?_, hone, ?_⟩
  · rcases (runTokens_parens {} twoOpen Standard.avoids_parse).2.2 2 htwo with ⟨-, h⟩ | ⟨h, -⟩
    · exact h.symm
    · cases h
  · rcases (runTokens_parens {} oneClosed Standard.avoids_parse).2.2 (-1) hone with ⟨h, -⟩ | ⟨-, h⟩
    · cases h
    · exact h

end SinglePass
