import SinglePass.Proofs.Acceptance
import SinglePass.Proofs.Registering

/-!
# More tokens

What tokens behind others can change.  An error is final, whatever follows, unless it may have been found at the end of
the tokens only (`Error.isProvisional`): something was still open there, or the number of values was not one.

A value is not final: any further token takes it away, blanks excepted.  For finished values are never used again, and
every token that counts finishes one more value or leaves something open (`Machine.beyond_of_step`); so there is no way
back to a single value (`Machine.Beyond`).
-/

namespace SinglePass

/-- The errors that more tokens may take away. -/
def Error.isProvisional : Error → Bool
  | .unbalanced depth => 0 < depth
  | .noExpression | .manyExpressions _ | .openArray => true
  | _ => false

namespace Machine

variable {registry : Registry} {limit n : Nat} {m m' : Machine} {t : Token} {ts : List Token}

/-- What is wrong at the end of the tokens may be put right by more tokens. -/
theorem isProvisional_of_outcome {e : Error} (h : m.outcome = .error e) : e.isProvisional := by
  rcases error_of_outcome h with rfl | ⟨hd, rfl⟩ | rfl | ⟨count, rfl⟩
  · rfl
  · simpa [Error.isProvisional] using hd
  · rfl
  · rfl

/-! ### Finished values -/

/-- So many values are finished, and one more is finished or begun. -/
def Beyond (n : Nat) (m : Machine) : Prop :=
  n < m.values.length ∨ n ≤ m.values.length ∧ (m.mode ≠ .operand ∨ m.frames ≠ [])

theorem Beyond.le (h : m.Beyond n) : n ≤ m.values.length := by
  rcases h with h | h
  · exact h.le
  · exact h.1

theorem Beyond.mono {k : Nat} (h : m.Beyond n) (hk : k ≤ n) : m.Beyond k := by
  rcases h with h | ⟨h, hopen⟩
  · exact .inl (by omega)
  · exact .inr ⟨by omega, hopen⟩

theorem beyond_receive (m : Machine) (v : Value) : (m.receive v).Beyond m.values.length := by
  cases hf : m.frames with
  | nil =>
    left
    rw [receive_of_no_frames hf]
    simp
  | cons f rest =>
    right
    rw [receive_of_frame hf]
    exact ⟨le_rfl, .inr (by simp)⟩

/-- A token that counts finishes one more value or leaves something open, and finished values stay. -/
theorem beyond_of_step (hw : t.kind ≠ .whitespace) (h : Step registry limit m t m') : m'.Beyond m.values.length := by
  cases h with
  | blank hk => exact absurd hk hw
  | enter | takeName => exact .inr ⟨le_rfl, .inr (by simp)⟩
  | item | openParen | openBracket => exact .inr ⟨le_rfl, .inl (by simp)⟩
  | closeArray => exact beyond_receive { m with mode := .operand } _
  | name | literal => exact beyond_receive m _
  | @close f rest => exact beyond_receive { m with frames := rest, scope := f.outerScope } _

theorem length_values_le_of_step (h : Step registry limit m t m') : m.values.length ≤ m'.values.length := by
  by_cases hw : t.kind = .whitespace
  · have hs := step_eq_ok_iff.2 h
    rw [result_step_blank hw] at hs
    cases hs
    exact le_rfl
  · exact (beyond_of_step hw h).le

theorem length_values_le_of_run (h : (run registry limit m ts).result = .ok m') :
    m.values.length ≤ m'.values.length := by
  induction ts generalizing m with
  | nil =>
    cases h
    exact le_rfl
  | cons t ts ih =>
    rw [result_run_cons, bind_eq_ok_iff] at h
    obtain ⟨m₁, h₁, h⟩ := h
    exact (length_values_le_of_step (step_eq_ok_iff.1 h₁)).trans (ih h)

/-- Tokens that count lead beyond the values that were there before them. -/
theorem beyond_of_run (h : (run registry limit m ts).result = .ok m') (ht : ∃ t ∈ ts, t.kind ≠ .whitespace) :
    m'.Beyond m.values.length := by
  -- the last token that counts decides, since blanks behind it change nothing
  induction ts using List.reverseRecOn generalizing m' with
  | nil => simp at ht
  | append_singleton ts t ih =>
    rw [result_run_append, bind_eq_ok_iff] at h
    obtain ⟨m₁, h₁, h⟩ := h
    rw [result_run_cons, bind_eq_ok_iff] at h
    obtain ⟨m₂, h₂, h⟩ := h
    cases h
    by_cases hw : t.kind = .whitespace
    · rw [result_step_blank hw] at h₂
      cases h₂
      refine ih h₁ ?_
      obtain ⟨u, hu, hk⟩ := ht
      rcases List.mem_append.1 hu with hu | hu
      · exact ⟨u, hu, hk⟩
      · rw [List.mem_singleton.1 hu] at hk
        exact absurd hw hk
    · exact (beyond_of_step hw (step_eq_ok_iff.1 h₂)).mono (length_values_le_of_run h₁)

theorem Beyond.outcome_ne_ok (h : m.Beyond n) (hn : 0 < n) (v : Value) : m.outcome ≠ .ok v := by
  intro ho
  obtain ⟨hm, hf, hlen⟩ := outcome_eq_ok ho
  rcases h with h | ⟨-, h | h⟩
  · omega
  · exact h hm
  · exact h hf

/-- Behind a value, or several of them, no token that counts leads to a single value again. -/
theorem evaluate_append_ne_ok {us : List Token} (h : (run registry limit .start ts).result = .ok m)
    (hm : 0 < m.values.length) (hus : ∃ u ∈ us, u.kind ≠ .whitespace) (v : Value) :
    ((run registry limit .start (ts ++ us)).result >>= outcome) ≠ .ok v := by
  intro hok
  obtain ⟨m', hrun, ho⟩ := bind_eq_ok_iff.1 hok
  rw [result_run_append, h, ok_bind] at hrun
  exact (beyond_of_run hrun hus).outcome_ne_ok hm v ho

end Machine

/-- Errors are final and values are not.  An error is the error of all token lists that begin with the same tokens,
unless it is one that more tokens may take away.  If tokens have a value, or several, then with more tokens behind them
they have none, unless these are blanks. -/
theorem runTokens_append (i : Interpreter) (ts us : List Token) :
    (∀ e, i.runTokens ts = .error e → e.isProvisional = false → i.runTokens (ts ++ us) = .error e) ∧
    ((∃ v, i.runTokens ts = .ok v) ∨
        (i.registry.Avoids (·.category = .parse) ∧ ∃ n, i.runTokens ts = .error (.manyExpressions n)) →
      (∃ u ∈ us, u.kind ≠ .whitespace) → ∀ v, i.runTokens (ts ++ us) ≠ .ok v) := by
  constructor
  · intro e h he
    rw [i.runTokens_eq, bind_eq_error_iff] at h
    rcases h with h | ⟨m, -, h⟩
    · rw [i.runTokens_eq, Machine.result_run_append, h, error_bind, error_bind]
    · rw [Machine.isProvisional_of_outcome h] at he
      cases he
  · intro h hus v
    obtain ⟨m, hrun, -, -, hm⟩ := i.finished_of_runTokens h
    rw [i.runTokens_eq]
    exact Machine.evaluate_append_ne_ok hrun hm hus v

/-- The tokens of `(def x true`, and one more. -/
private def beginDefinition (t : Token) : List Token :=
  [⟨.openParen, "(", 0⟩, ⟨.identifier, "def", 1⟩, ⟨.identifier, "x", 5⟩, ⟨.bool, "true", 7⟩, t]

/-- A bracket in the place of the body is final.  A literal has a value, and two of them are two values; with a closing
parenthesis behind them they have none. -/
theorem runTokens_append_stray :
    (∀ us, Interpreter.runTokens {} (beginDefinition ⟨.closeBracket, "]", 12⟩ ++ us) = .error (.strayBracket 12)) ∧
    (∀ v, Interpreter.runTokens {} ([⟨.bool, "true", 0⟩] ++ [⟨.whitespace, " ", 4⟩, ⟨.closeParen, ")", 5⟩]) ≠ .ok v) ∧
    ∀ v, Interpreter.runTokens {} ([⟨.bool, "true", 0⟩, ⟨.bool, "true", 4⟩] ++ [⟨.closeParen, ")", 8⟩]) ≠ .ok v := by
  refine ⟨fun us => ?_, ?_, ?_⟩
  · exact (runTokens_append {} (beginDefinition ⟨.closeBracket, "]", 12⟩) us).1 _ rfl rfl
  · exact (runTokens_append {} _ _).2 (.inl ⟨.bool true, rfl⟩) ⟨⟨.closeParen, ")", 5⟩, by simp, by simp⟩
  · exact (runTokens_append {} _ _).2 (.inr ⟨Standard.avoids_parse, 2, rfl⟩) ⟨⟨.closeParen, ")", 8⟩, by simp, by simp⟩

end SinglePass
