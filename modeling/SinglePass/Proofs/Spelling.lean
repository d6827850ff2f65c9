import SinglePass.Proofs.Run

/-!
# Trees and their lexemes

The lexemes of a tree determine it: no tree is spelled like the beginning of another one, so a list of lexemes is
spelled by one list of trees at most (`Expr.lexemesAll_inj`).  The trees have to be `Grammatical`, which excludes one
thing only: a form that calls `def` with arguments, since the first of them could be read as the name to bind.
-/

namespace SinglePass

/-! ### Induction -/

/-- Induction over data: an array has the property if all its items have it. -/
theorem Datum.induction {P : Datum → Prop} (literal : ∀ t, P (.literal t))
    (array : ∀ items, (∀ d ∈ items, P d) → P (.array items)) (d : Datum) : P d :=
  match d with
  | .literal t => literal t
  | .array items => array items fun d _ => Datum.induction literal array d

/-- The trees of the language: a form that calls `def` is the binding form, unless it is empty. -/
inductive Expr.Grammatical : Expr → Prop
  | datum (d : Datum) : Grammatical (.datum d)
  | name (s : String) : Grammatical (.name s)
  | form {callee : String} {args : List Expr} : (callee = "def" → args = []) → (∀ a ∈ args, Grammatical a) →
      Grammatical (.form callee args)
  | binding (bound : String) {args : List Expr} : (∀ a ∈ args, Grammatical a) → Grammatical (.binding bound args)

/-! ### Lexemes of data -/

namespace Datum

/-- The lexemes of a datum start with a literal or an opening bracket. -/
theorem head_lexemes {d : Datum} {r ls : List Lexeme} {x : Lexeme} (h : d.lexemes ++ r = x :: ls) :
    (∃ t, x = .literal t) ∨ x = .openBracket := by
  cases d with
  | literal t =>
    rw [lexemes, List.singleton_append, List.cons.injEq] at h
    exact .inl ⟨t, h.1.symm⟩
  | array items =>
    rw [lexemes, List.cons_append, List.cons_append, List.cons.injEq] at h
    exact .inr h.1.symm

/-- Items up to a closing bracket are determined, if each of them is. -/
private theorem lexemesAll_append_inj {ds ds' : List Datum} {r r' : List Lexeme}
    (hd : ∀ d ∈ ds, ∀ d' r r', d.lexemes ++ r = d'.lexemes ++ r' → d = d' ∧ r = r')
    (h : lexemesAll ds ++ .closeBracket :: r = lexemesAll ds' ++ .closeBracket :: r') : ds = ds' ∧ r = r' := by
  induction ds generalizing ds' with
  | nil =>
    cases ds' with
    | nil => simpa [lexemesAll] using h
    | cons d' ds' =>
      rw [lexemesAll, lexemesAll, List.nil_append, List.append_assoc] at h
      rcases head_lexemes h.symm with ⟨t, ht⟩ | ht <;> cases ht
  | cons d ds ih =>
    cases ds' with
    | nil =>
      rw [lexemesAll, lexemesAll, List.nil_append, List.append_assoc] at h
      rcases head_lexemes h with ⟨t, ht⟩ | ht <;> cases ht
    | cons d' ds' =>
      simp only [lexemesAll, List.append_assoc] at h
      obtain ⟨rfl, hrest⟩ := hd d (by simp) d' _ _ h
      obtain ⟨rfl, rfl⟩ := ih (fun x hx => hd x (by simp [hx])) hrest
      exact ⟨rfl, rfl⟩

theorem lexemes_append_inj (d : Datum) : ∀ d' r r', d.lexemes ++ r = d'.lexemes ++ r' → d = d' ∧ r = r' := by
  induction d using Datum.induction with
  | literal t =>
    intro d' r r' h
    cases d' with
    | literal t' => simpa [lexemes] using h
    | array items => simp [lexemes] at h
  | array items ih =>
    intro d' r r' h
    cases d' with
    | literal t' => simp [lexemes] at h
    | array items' =>
      simp only [lexemes, List.cons_append, List.cons.injEq, true_and, List.append_assoc, List.nil_append] at h
      obtain ⟨rfl, rfl⟩ := lexemesAll_append_inj ih h
      exact ⟨rfl, rfl⟩

end Datum

/-! ### Lexemes of trees -/

namespace Expr

/-- These lexemes do not begin with a tree. -/
def EndsTrees (r : List Lexeme) : Prop := ∀ (e : Expr) s, r ≠ e.lexemes ++ s

theorem endsTrees_nil : EndsTrees [] := by
  intro e s h
  cases e with
  | datum d => cases d <;> simp [lexemes, Datum.lexemes] at h
  | name _ | form _ _ | binding _ _ => simp [lexemes] at h

theorem endsTrees_closeParen (r : List Lexeme) : EndsTrees (.closeParen :: r) := by
  intro e s h
  cases e with
  | datum d => rcases Datum.head_lexemes h.symm with ⟨t, ht⟩ | ht <;> cases ht
  | name _ | form _ _ | binding _ _ => simp [lexemes] at h

/-- Trees up to something that begins no tree are determined, if each of them is. -/
private theorem lexemesAll_append_inj {es es' : List Expr} {r r' : List Lexeme}
    (he : ∀ e ∈ es, ∀ e' r r', e'.Grammatical → e.lexemes ++ r = e'.lexemes ++ r' → e = e' ∧ r = r')
    (he' : ∀ e' ∈ es', e'.Grammatical) (hr : EndsTrees r) (hr' : EndsTrees r')
    (h : lexemesAll es ++ r = lexemesAll es' ++ r') : es = es' ∧ r = r' := by
  induction es generalizing es' with
  | nil =>
    cases es' with
    | nil => exact ⟨rfl, h⟩
    | cons e' es' =>
      simp only [lexemesAll, List.nil_append, List.append_assoc] at h
      exact absurd h (hr e' _)
  | cons e es ih =>
    cases es' with
    | nil =>
      simp only [lexemesAll, List.nil_append, List.append_assoc] at h
      exact absurd h.symm (hr' e _)
    | cons e' es' =>
      simp only [lexemesAll, List.append_assoc] at h
      obtain ⟨rfl, hrest⟩ := he e (by simp) e' _ _ (he' e' (by simp)) h
      obtain ⟨rfl, rfl⟩ := ih (fun x hx => he x (by simp [hx])) (fun x hx => he' x (by simp [hx])) hrest
      exact ⟨rfl, rfl⟩

/-- No grammatical tree is spelled like the beginning of another one. -/
theorem Grammatical.lexemes_append_inj {e : Expr} (he : e.Grammatical) :
    ∀ e' r r', e'.Grammatical → e.lexemes ++ r = e'.lexemes ++ r' → e = e' ∧ r = r' := by
  induction he with
  | datum d =>
    intro e' r r' he' h
    cases he' with
    | datum d' =>
      obtain ⟨rfl, rfl⟩ := d.lexemes_append_inj d' r r' h
      exact ⟨rfl, rfl⟩
    | name | form | binding => rcases Datum.head_lexemes h with ⟨t, ht⟩ | ht <;> cases ht
  | name s =>
    intro e' r r' he' h
    cases he' with
    | name s' => simpa [lexemes] using h
    | datum d => rcases Datum.head_lexemes h.symm with ⟨t, ht⟩ | ht <;> cases ht
    | form | binding => simp [lexemes] at h
  | @form callee args hdef _ ih =>
    intro e' r r' he' h
    cases he' with
    | datum d => rcases Datum.head_lexemes h.symm with ⟨t, ht⟩ | ht <;> cases ht
    | name => simp [lexemes] at h
    | form _ hargs' =>
      simp only [lexemes, List.cons_append, List.cons.injEq, Lexeme.name.injEq, true_and, List.append_assoc,
        List.nil_append] at h
      obtain ⟨rfl, h⟩ := h
      obtain ⟨rfl, hr⟩ := lexemesAll_append_inj ih hargs' (endsTrees_closeParen r) (endsTrees_closeParen r') h
      exact ⟨rfl, by simpa using hr⟩
    | binding bound hargs' =>
      -- a form that calls `def` has no arguments, so the name to bind would be a closing parenthesis
      simp only [lexemes, List.cons_append, List.cons.injEq, Lexeme.name.injEq, true_and] at h
      rw [hdef h.1] at h
      simp [lexemesAll] at h
  | @binding bound args _ ih =>
    intro e' r r' he' h
    cases he' with
    | datum d => rcases Datum.head_lexemes h.symm with ⟨t, ht⟩ | ht <;> cases ht
    | name => simp [lexemes] at h
    | form hdef' _ =>
      simp only [lexemes, List.cons_append, List.cons.injEq, Lexeme.name.injEq, true_and] at h
      rw [hdef' h.1.symm] at h
      simp [lexemesAll] at h
    | binding bound' hargs' =>
      simp only [lexemes, List.cons_append, List.cons.injEq, Lexeme.name.injEq, true_and, List.append_assoc,
        List.nil_append] at h
      obtain ⟨rfl, h⟩ := h
      obtain ⟨rfl, hr⟩ := lexemesAll_append_inj ih hargs' (endsTrees_closeParen r) (endsTrees_closeParen r') h
      exact ⟨rfl, by simpa using hr⟩

/-- A list of lexemes is spelled by at most one list of grammatical trees. -/
theorem lexemesAll_inj {es es' : List Expr} (he : ∀ e ∈ es, e.Grammatical) (he' : ∀ e ∈ es', e.Grammatical)
    (h : lexemesAll es = lexemesAll es') : es = es' := by
  have hnil : lexemesAll es ++ [] = lexemesAll es' ++ [] := by simpa using h
  exact (lexemesAll_append_inj (fun e hm => (he e hm).lexemes_append_inj) he' endsTrees_nil endsTrees_nil hnil).1

end Expr

end SinglePass
