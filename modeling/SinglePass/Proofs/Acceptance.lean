import SinglePass.Proofs.Failure
import SinglePass.Proofs.Grammar

/-!
# What the machine accepts

Tokens from which the machine gets a value spell a tree of the language: the forms have the right number of arguments,
the other callees are registered, parentheses and brackets are nested no deeper than the limit, and every name stands
in the body of a definition of that name.  The tree is the only one, and if the machine counts several results, there
are as many trees.

The machine builds no tree, so the trees are found in its state.  `Reads` says that the lexemes read so far are trees
for the finished results, and behind them for each open frame its opening parenthesis, its callee and trees for the
arguments that it holds; `Pending` describes what was read of a callee or an array literal.  A step adds its lexeme to
this picture (`HasRead.step`).
-/

namespace SinglePass

/-! ### Array literals -/

/-- What was read of an array literal with so many open brackets: behind each of them the items that are finished. -/
inductive OpenArrays (room : Nat) : Nat → List Lexeme → Prop
  | nil : OpenArrays room 0 []
  | bracket {opened : Nat} {ls ls' : List Lexeme} (ds : List Datum) : OpenArrays room opened ls → (∀ d ∈ ds, d.Valid) →
      opened + (Datum.array ds).nesting ≤ room → ls' = ls ++ .openBracket :: Datum.lexemesAll ds →
      OpenArrays room (opened + 1) ls'

namespace OpenArrays

variable {room opened : Nat} {ls : List Lexeme}

theorem push (h : OpenArrays room opened ls) (hr : opened < room) :
    OpenArrays room (opened + 1) (ls ++ [.openBracket]) :=
  .bracket [] h (by simp) hr rfl

theorem add (h : OpenArrays room (opened + 1) ls) {d : Datum} (hd : d.Valid) (hr : opened + 1 + d.nesting ≤ room) :
    OpenArrays room (opened + 1) (ls ++ d.lexemes) := by
  cases h with
  | @bracket _ ls _ ds h hds hn hls =>
    refine .bracket (ds ++ [d]) h ?_ ?_ ?_
    · exact List.forall_mem_append.2 ⟨hds, by simpa using hd⟩
    · simp only [Datum.nesting] at hn ⊢
      have hle : Datum.nestingAll (ds ++ [d]) ≤ room - (opened + 1) := by
        have hold : ∀ x ∈ ds, x.nesting ≤ room - (opened + 1) := Datum.nestingAll_le_iff.1 (by omega)
        have hnew : d.nesting ≤ room - (opened + 1) := by omega
        exact Datum.nestingAll_le_iff.2 (List.forall_mem_append.2 ⟨hold, by simpa using hnew⟩)
      omega
    · simp [hls, Datum.lexemesAll_append, Datum.lexemesAll]

theorem le (h : OpenArrays room opened ls) : opened ≤ room := by
  cases h with
  | nil => exact Nat.zero_le room
  | bracket ds _ _ hn _ =>
    simp only [Datum.nesting] at hn
    omega

/-- A closing bracket finishes the items behind the innermost open bracket. -/
theorem close (h : OpenArrays room (opened + 1) ls) : ∃ (ls' : List Lexeme) (d : Datum),
    OpenArrays room opened ls' ∧ d.Valid ∧ opened + d.nesting ≤ room ∧ ls ++ [.closeBracket] = ls' ++ d.lexemes := by
  cases h with
  | @bracket _ ls _ ds h hds hn hls =>
    refine ⟨ls, .array ds, h, .array hds, hn, ?_⟩
    simp [hls, Datum.lexemes]

theorem eq_nil (h : OpenArrays room 0 ls) : ls = [] := by
  cases h
  rfl

end OpenArrays

namespace Machine

/-- A token that does not finish an array literal opens a list, closes one, or is an item. -/
theorem arrayStep_unfinished {opened limit : Nat} {stack stack' : List (List Value)} {t : Token}
    (hw : t.kind ≠ .whitespace) (hs : stack ≠ [])
    (h : ArrayLiteral.step opened limit stack t = .ok (.unfinished stack')) :
    (t.kind = .openBracket ∧ opened + stack.length < limit ∧ stack'.length = stack.length + 1) ∨
      (t.kind = .closeBracket ∧ 0 < stack'.length ∧ stack.length = stack'.length + 1) ∨
      (t.kind.isLiteral ∧ stack'.length = stack.length) := by
  obtain ⟨items, rest, rfl⟩ := List.exists_cons_of_ne_nil hs
  by_cases hlit : t.kind.isLiteral
  · right; right
    obtain ⟨r, hr⟩ := Option.isSome_iff_exists.1 (literal?_isSome_iff.2 hlit)
    rw [arrayStep_literal hr, bind_eq_ok_iff] at h
    obtain ⟨v, -, h⟩ := h
    cases h
    exact ⟨hlit, rfl⟩
  · cases hk : t.kind <;> simp only [hk, Token.Kind.isLiteral, not_true_eq_false] at hlit <;>
      simp only [ArrayLiteral.step, hk] at h
    case openBracket =>
      left
      rw [bind_eq_ok_iff] at h
      obtain ⟨u, hu, h⟩ := h
      cases h
      exact ⟨rfl, lt_of_requireRoom hu, rfl⟩
    case closeBracket =>
      right; left
      cases rest with
      | nil => cases h
      | cons outer rest =>
        cases h
        exact ⟨rfl, by simp, by simp⟩
    case whitespace => exact absurd hk hw
    all_goals cases h

theorem arrayStep_finished {opened limit : Nat} {stack : List (List Value)} {t : Token} {v : Value} (hs : stack ≠ [])
    (h : ArrayLiteral.step opened limit stack t = .ok (.finished v)) :
    t.kind = .closeBracket ∧ stack.length = 1 := by
  obtain ⟨items, rest, rfl⟩ := List.exists_cons_of_ne_nil hs
  by_cases hlit : t.kind.isLiteral
  · obtain ⟨r, hr⟩ := Option.isSome_iff_exists.1 (literal?_isSome_iff.2 hlit)
    rw [arrayStep_literal hr, bind_eq_ok_iff] at h
    obtain ⟨w, -, h⟩ := h
    cases h
  · cases hk : t.kind <;> simp only [hk, Token.Kind.isLiteral, not_true_eq_false] at hlit <;>
      simp only [ArrayLiteral.step, hk] at h
    case openBracket =>
      rw [bind_eq_ok_iff] at h
      obtain ⟨u, -, h⟩ := h
      cases h
    case closeBracket =>
      cases rest with
      | nil => simp
      | cons outer rest => cases h
    all_goals cases h

/-! ### The invariant -/

/-- What was read up to the innermost frame: trees for so many results, and then the open frames, the innermost
first in the list and last in the lexemes. -/
inductive Reads (registry : Registry) (limit results : Nat) : List Frame → List Lexeme → Prop
  | top {ls : List Lexeme} (es : List Expr) : es.length = results → (∀ e ∈ es, e.Accepted registry limit []) →
      ls = Expr.lexemesAll es → Reads registry limit results [] ls
  | frame {f : Frame} {rest : List Frame} {ls ls' : List Lexeme} (args : List Expr) :
      Reads registry limit results rest ls → f.Holds registry (limit - rest.length) args →
      ls' = ls ++ f.lexemes args → Reads registry limit results (f :: rest) ls'

/-- What was read behind that and is no tree yet. -/
inductive Pending (room : Nat) : Mode → List Lexeme → Prop
  | operand : Pending room .operand []
  | callee : 0 < room → Pending room .callee [.openParen]
  | array {stack : List (List Value)} {ls : List Lexeme} : stack ≠ [] → OpenArrays room stack.length ls →
      Pending room (.array stack) ls

/-- The machine has read these lexemes. -/
structure HasRead (registry : Registry) (limit : Nat) (ls : List Lexeme) (m : Machine) : Prop where
  nested : m.Scoped
  reads : ∃ before after, ls = before ++ after ∧ Reads registry limit m.values.length m.frames before ∧
    Pending (limit - m.frames.length) m.mode after

section

variable {registry : Registry} {limit : Nat} {m : Machine} {ls : List Lexeme}

theorem HasRead.operand (h : HasRead registry limit ls m) (hm : m.mode = .operand) :
    Reads registry limit m.values.length m.frames ls := by
  obtain ⟨before, after, rfl, hr, hp⟩ := h.reads
  rw [hm] at hp
  cases hp
  rwa [List.append_nil]

/-- A tree that can stand at this place may be received. -/
theorem Reads.receive (h : Reads registry limit m.values.length m.frames ls) (hn : Nested m.frames m.scope) {e : Expr}
    (he : e.Accepted registry (limit - m.frames.length) m.scope.names) (v : Value) :
    Reads registry limit (m.receive v).values.length (m.receive v).frames (ls ++ e.lexemes) := by
  cases hf : m.frames with
  | nil =>
    rw [hf] at h hn he
    rw [hn.scope_eq] at he
    rw [receive_of_no_frames hf]
    show Reads registry limit (m.values ++ [v]).length m.frames _
    rw [hf]
    cases h with
    | top es hlen hes hls =>
      refine .top (es ++ [e]) ?_ ?_ ?_
      · simp [hlen]
      · exact List.forall_mem_append.2 ⟨hes, List.forall_mem_singleton.2 he⟩
      · simp [hls, Expr.lexemesAll_append, Expr.lexemesAll]
  | cons f rest =>
    rw [hf] at h hn he
    rw [hn.scope_eq] at he
    rw [receive_of_frame hf]
    cases h with
    | frame args hr hargs hls =>
      refine .frame (args ++ [e]) hr (hargs.push ?_ v) ?_
      · rw [List.length_cons, ← Nat.sub_sub] at he
        exact he
      · rw [Frame.lexemes_push, hls, List.append_assoc]

theorem HasRead.receive (h : Reads registry limit m.values.length m.frames ls) (hm : m.mode = .operand)
    (hn : Nested m.frames m.scope) (ha : m.awaitsName = false) {e : Expr}
    (he : e.Accepted registry (limit - m.frames.length) m.scope.names) (v : Value) :
    HasRead registry limit (ls ++ e.lexemes) (m.receive v) where
  nested := .receive hn ha v
  reads := by
    refine ⟨ls ++ e.lexemes, [], by simp, h.receive hn he v, ?_⟩
    rw [mode_receive, hm]
    exact .operand

theorem HasRead.start : HasRead registry limit [] .start where
  nested := .start
  reads := ⟨[], [], rfl, .top [] rfl (by simp) rfl, .operand⟩

theorem HasRead.enter {callee : Callee} {name : String} (h : HasRead registry limit ls m) (hm : m.mode = .callee)
    (hr : resolve registry name = .ok callee) :
    ∃ before after, ls ++ [.name name] = before ++ after ∧
      Reads registry limit m.values.length (.new callee m.scope :: m.frames) before ∧
      Pending (limit - (m.frames.length + 1)) .operand after := by
  obtain ⟨before, after, rfl, hreads, hp⟩ := h.reads
  rw [hm] at hp
  cases hp with
  | callee hpos =>
    have hname := name_of_resolve hr
    have hholds : (Frame.new callee m.scope).Holds registry (limit - m.frames.length) [] :=
      ⟨by rw [← hname] at hr; exact hr, rfl, hpos, by simp, by simp⟩
    refine ⟨_, [], (List.append_nil _).symm, .frame [] hreads hholds ?_, .operand⟩
    simp [Frame.lexemes, Frame.new, hname, Expr.lexemesAll]

theorem Reads.takeName {f : Frame} {rest : List Frame} {results : Nat} (h : Reads registry limit results (f :: rest) ls)
    (ha : f.awaitsName = true) (name : String) :
    Reads registry limit results ({ f with binder := some name } :: rest) (ls ++ [.name name]) := by
  obtain ⟨-, hb, hargs⟩ := Frame.form?_of_awaitsName ha
  cases h with
  | frame args hr hf hls =>
    have hnil : args = [] := List.eq_nil_of_length_eq_zero (by rw [hf.length_eq, hargs]; rfl)
    subst hnil
    refine .frame [] hr ⟨hf.resolved, by simp [hargs], hf.room_pos, by simp, by simp⟩ ?_
    simp [hls, Frame.lexemes, hb, Expr.lexemesAll]

theorem Pending.item {stack stack' : List (List Value)} {opened : Nat} {t : Token}
    (h : Pending (limit - opened) (.array stack) ls) (hw : t.kind ≠ .whitespace)
    (hs : ArrayLiteral.step opened limit stack t = .ok (.unfinished stack')) :
    Pending (limit - opened) (.array stack') (ls ++ t.lexeme?.toList) := by
  cases h with
  | array hne h =>
    rcases arrayStep_unfinished hw hne hs with ⟨hk, hl, hlen⟩ | ⟨hk, hpos, hlen⟩ | ⟨hlit, hlen⟩
    · refine .array (List.ne_nil_of_length_pos (by omega)) ?_
      rw [hlen, (lexeme?_eq_some_iff (x := .openBracket)).2 hk]
      exact h.push (by omega)
    · -- the list that is closed becomes an item of the one around it
      refine .array (List.ne_nil_of_length_pos hpos) ?_
      obtain ⟨k, hk'⟩ : ∃ k, stack'.length = k + 1 := ⟨stack'.length - 1, by omega⟩
      rw [hlen, hk'] at h
      obtain ⟨ls', d, hls, hd, hn, heq⟩ := h.close
      rw [(lexeme?_eq_some_iff (x := .closeBracket)).2 hk, hk']
      simp only [Option.toList_some, heq]
      exact hls.add hd hn
    · refine .array (List.ne_nil_of_length_pos (by rw [hlen]; exact List.length_pos_of_ne_nil hne)) ?_
      obtain ⟨k, hk'⟩ : ∃ k, stack.length = k + 1 :=
        ⟨stack.length - 1, by have := List.length_pos_of_ne_nil hne; omega⟩
      rw [hk'] at h hlen
      rw [hlen, (lexeme?_eq_some_iff (x := .literal t)).2 ⟨hlit, rfl⟩]
      exact h.add (.literal hlit) h.le

/-- The closing bracket of an array literal makes it a datum. -/
theorem Pending.closeArray {stack : List (List Value)} {opened : Nat} {t : Token} {v : Value}
    (h : Pending (limit - opened) (.array stack) ls)
    (hs : ArrayLiteral.step opened limit stack t = .ok (.finished v)) :
    ∃ d : Datum, d.Valid ∧ d.nesting ≤ limit - opened ∧ ls ++ t.lexeme?.toList = d.lexemes := by
  cases h with
  | array hne h =>
    obtain ⟨hk, hlen⟩ := arrayStep_finished hne hs
    rw [hlen] at h
    obtain ⟨ls', d, hls, hd, hn, heq⟩ := h.close
    rw [hls.eq_nil, List.nil_append] at heq
    refine ⟨d, hd, by omega, ?_⟩
    rw [(lexeme?_eq_some_iff (x := .closeBracket)).2 hk]
    exact heq

theorem Reads.close {f : Frame} {rest : List Frame} {results : Nat} {v : Value}
    (h : Reads registry limit results (f :: rest) ls) (hf : f.WellFormed) (hv : f.result = .ok v) :
    ∃ (ls' : List Lexeme) (e : Expr), Reads registry limit results rest ls' ∧
      e.Accepted registry (limit - rest.length) f.outerScope.names ∧ ls ++ [.closeParen] = ls' ++ e.lexemes := by
  cases h with
  | frame args hr hargs hls =>
    refine ⟨_, f.tree args, hr, hargs.tree_accepted hf hv, ?_⟩
    rw [hls, f.lexemes_tree hf, List.append_assoc]

/-- A step reads the lexeme of its token. -/
theorem HasRead.step {m' : Machine} {t : Token} (h : HasRead registry limit ls m) (hs : Step registry limit m t m') :
    HasRead registry limit (ls ++ t.lexeme?.toList) m' := by
  have hn := h.nested.nested
  have hnext := h.nested.step hs
  cases hs with
  | blank hk =>
    rw [lexeme?_eq_none_iff.2 hk, Option.toList_none, List.append_nil]
    exact h
  | enter hm hk hr =>
    rw [(lexeme?_eq_some_iff (x := .name t.text)).2 ⟨hk, rfl⟩]
    exact ⟨hnext, h.enter hm hr⟩
  | item hm hw hstep =>
    obtain ⟨before, after, rfl, hr, hp⟩ := h.reads
    rw [hm] at hp
    exact ⟨hnext, before, _, List.append_assoc _ _ _, hr, hp.item hw hstep⟩
  | @closeArray _ v hm hw hstep =>
    obtain ⟨before, after, rfl, hr, hp⟩ := h.reads
    rw [hm] at hp
    obtain ⟨d, hd, hle, hls⟩ := hp.closeArray hstep
    rw [List.append_assoc, hls]
    exact HasRead.receive (m := { m with mode := .operand }) (e := .datum d) hr rfl hn
      (h.nested.named (by simp [hm])) ⟨.datum hd, hle, .datum _ d⟩ v
  | takeName hm hf ha hk =>
    have hr := h.operand hm
    rw [hf] at hr
    rw [(lexeme?_eq_some_iff (x := .name t.text)).2 ⟨hk, rfl⟩]
    refine ⟨hnext, _, [], (List.append_nil _).symm, hr.takeName ha t.text, ?_⟩
    show Pending _ m.mode []
    rw [hm]
    exact .operand
  | openParen hm ha hk hl =>
    rw [(lexeme?_eq_some_iff (x := .openParen)).2 hk]
    exact ⟨hnext, ls, _, rfl, h.operand hm, .callee (Nat.sub_pos_of_lt hl)⟩
  | openBracket hm ha hk hl =>
    rw [(lexeme?_eq_some_iff (x := .openBracket)).2 hk]
    exact ⟨hnext, ls, _, rfl, h.operand hm,
      .array (by simp) (OpenArrays.nil.push (Nat.sub_pos_of_lt hl))⟩
  | @name v hm ha hk hv =>
    rw [(lexeme?_eq_some_iff (x := .name t.text)).2 ⟨hk, rfl⟩]
    exact HasRead.receive (e := .name t.text) (h.operand hm) hm hn ha
      ⟨.name _, Nat.zero_le _, .name (Scope.mem_names_of_lookup hv)⟩ v
  | @literal v hm ha hv =>
    have hlit := literal?_isSome_iff.1 (Option.isSome_of_eq_some hv)
    rw [(lexeme?_eq_some_iff (x := .literal t)).2 ⟨hlit, rfl⟩]
    exact HasRead.receive (e := .datum (.literal t)) (h.operand hm) hm hn ha
      ⟨.datum (.literal hlit), Nat.zero_le _, .datum _ _⟩ v
  | @close f rest v hm hk hf hv =>
    -- the frame has become a tree, which the frame around it receives in the scope that it was opened in
    have hr := h.operand hm
    rw [hf] at hr hn
    rw [(lexeme?_eq_some_iff (x := .closeParen)).2 hk]
    cases hn with
    | cons hw hn hnone _ =>
      obtain ⟨ls', e, hr', he, hls⟩ := hr.close hw hv
      rw [Option.toList_some, hls]
      exact HasRead.receive (m := { m with frames := rest, scope := f.outerScope }) hr' hm hn hnone he v

theorem hasRead_of_run {ts : List Token} (h : (run registry limit .start ts).result = .ok m) :
    HasRead registry limit (ts.filterMap Token.lexeme?) m := by
  refine reached_induction (P := fun ts m => HasRead registry limit (ts.filterMap Token.lexeme?) m) .start ?_ h
  intro ts m t m' hm hs
  have hstep := hm.step hs
  have hlast : [t].filterMap Token.lexeme? = t.lexeme?.toList := by cases ht : t.lexeme? <;> simp [ht]
  rwa [← hlast, ← List.filterMap_append] at hstep

/-- The callee of an open frame is what its name calls. -/
theorem resolved_of_run {ts : List Token} {f : Frame} {rest : List Frame}
    (h : (run registry limit .start ts).result = .ok m) (hm : m.mode = .operand) (hf : m.frames = f :: rest) :
    resolve registry f.callee.name = .ok f.callee := by
  have hr := (hasRead_of_run h).operand hm
  rw [hf] at hr
  cases hr with
  | frame args _ hargs _ => exact hargs.resolved

/-! ### The results -/

theorem Reads.trees {results : Nat} (h : Reads registry limit results [] ls) : ∃ es : List Expr,
    es.length = results ∧ (∀ e ∈ es, e.Accepted registry limit []) ∧ ls = Expr.lexemesAll es := by
  cases h with
  | top es hlen hes hls => exact ⟨es, hlen, hes, hls⟩

/-- A machine that is not at the end of a tree fails for that reason; otherwise it counts its results. -/
theorem outcome_cases (m : Machine) :
    (m.mode = .operand ∧ m.frames = [] ∧ m.outcome = match m.values with
      | [] => .error .noExpression
      | [v] => .ok v
      | vs => .error (.manyExpressions vs.length)) ∨
    m.outcome = .error .openArray ∨ ∃ depth, m.outcome = .error (.unbalanced depth) := by
  cases hm : m.mode with
  | array stack =>
    right; left
    simp [outcome, hm]
  | callee =>
    right; right
    have hd : m.depth ≠ 0 := by simp [depth, hm]
    exact ⟨m.depth, by simp [outcome, hm, hd]⟩
  | operand =>
    by_cases hf : m.frames = []
    · left
      have hd : m.depth = 0 := by simp [depth, hm, hf]
      refine ⟨rfl, hf, ?_⟩
      rcases hv : m.values with _ | ⟨v, _ | ⟨w, vs⟩⟩ <;> simp [outcome, hm, hd, hv]
    · right; right
      have hd : m.depth ≠ 0 := by simp [depth, hm, hf]
      exact ⟨m.depth, by simp [outcome, hm, hd]⟩

theorem outcome_eq_ok {v : Value} (h : m.outcome = .ok v) :
    m.mode = .operand ∧ m.frames = [] ∧ m.values.length = 1 := by
  rcases m.outcome_cases with ⟨hm, hf, ho⟩ | ho | ⟨depth, ho⟩
  · refine ⟨hm, hf, ?_⟩
    rw [ho] at h
    split at h
    · cases h
    · rename_i hv
      rw [hv]
      rfl
    · cases h
  · rw [ho] at h
    cases h
  · rw [ho] at h
    cases h

theorem outcome_eq_manyExpressions {n : Nat} (h : m.outcome = .error (.manyExpressions n)) :
    m.mode = .operand ∧ m.frames = [] ∧ m.values.length = n ∧ 2 ≤ n := by
  rcases m.outcome_cases with ⟨hm, hf, ho⟩ | ho | ⟨depth, ho⟩
  · refine ⟨hm, hf, ?_⟩
    rw [ho] at h
    rcases hv : m.values with _ | ⟨v, _ | ⟨w, vs⟩⟩
    · simp [hv] at h
    · simp [hv] at h
    · simp only [hv, Except.error.injEq, Error.manyExpressions.injEq] at h
      subst h
      exact ⟨rfl, by simp⟩
  · rw [ho] at h
    cases h
  · rw [ho] at h
    cases h

/-- The lexemes that a machine has read outside all frames are those of a tree for each result, and of no others. -/
theorem HasRead.trees (h : HasRead registry limit ls m) (hm : m.mode = .operand) (hf : m.frames = []) :
    ∃ es : List Expr, es.length = m.values.length ∧ (∀ e ∈ es, e.Accepted registry limit []) ∧
      ls = Expr.lexemesAll es ∧
      ∀ es' : List Expr, (∀ e ∈ es', e.Accepted registry limit []) → ls = Expr.lexemesAll es' → es' = es := by
  have hr := h.operand hm
  rw [hf] at hr
  obtain ⟨es, hlen, hes, hls⟩ := hr.trees
  refine ⟨es, hlen, hes, hls, fun es' hes' hls' => ?_⟩
  exact Expr.lexemesAll_inj (fun e he => (hes' e he).valid.grammatical) (fun e he => (hes e he).valid.grammatical)
    (hls'.symm.trans hls)

end

/-- The number of results is counted at the end only. -/
theorem result_run_ne_manyExpressions {registry : Registry} {limit n : Nat}
    (hreg : registry.Avoids (·.category = .parse)) (ts : List Token) :
    (run registry limit .start ts).result ≠ .error (.manyExpressions n) := by
  intro h
  obtain ⟨us, t, vs, m, -, hrun, hfails⟩ := fails_of_run h
  -- `cases` needs a variable in the place of the error
  generalize he : Error.manyExpressions n = e at hfails
  cases hfails with
  | item _ _ hs =>
    subst he
    rcases arrayStep_eq_error hs with ⟨-, -, he⟩ | ⟨-, he⟩ | ⟨-, he⟩ | ⟨-, he⟩ | ⟨-, he⟩ <;> cases he
  | literal _ _ hl =>
    rw [literal?_eq_error hl] at he
    cases he
  | result hm _ hf hv =>
    subst he
    exact Frame.category_of_result hreg (resolved_of_run hrun hm hf) hv rfl
  | noCallee | unknownCallee | noBinder | tooDeep | strayBracket | unbound | unbalanced => cases he

end Machine

/-- Tokens with a value, or with several, are read to their end, and nothing is left open there. -/
theorem Interpreter.finished_of_runTokens (i : Interpreter) {ts : List Token}
    (h : (∃ v, i.runTokens ts = .ok v) ∨
      (i.registry.Avoids (·.category = .parse) ∧ ∃ n, i.runTokens ts = .error (.manyExpressions n))) :
    ∃ m, (Machine.run i.registry i.config.limit.toNat .start ts).result = .ok m ∧ m.mode = .operand ∧ m.frames = [] ∧
      0 < m.values.length := by
  simp only [i.runTokens_eq, bind_eq_ok_iff, bind_eq_error_iff] at h
  rcases h with ⟨v, m, hrun, ho⟩ | ⟨hreg, n, h | ⟨m, hrun, ho⟩⟩
  · obtain ⟨hm, hf, hlen⟩ := Machine.outcome_eq_ok ho
    exact ⟨m, hrun, hm, hf, by omega⟩
  · exact absurd h (Machine.result_run_ne_manyExpressions hreg ts)
  · obtain ⟨hm, hf, hlen, htwo⟩ := Machine.outcome_eq_manyExpressions ho
    exact ⟨m, hrun, hm, hf, by omega⟩

/-- Tokens with a value spell exactly one tree, which is a tree of the language: its forms are complete, its callees
registered, its nesting within the limit and its names bound where they stand.  If several results are counted, the
tokens spell exactly so many such trees one after another. -/
theorem accepted_of_runTokens (i : Interpreter) (ts : List Token) (hreg : i.registry.Avoids (·.category = .parse)) :
    (∀ v, i.runTokens ts = .ok v →
      ∃! e : Expr, e.Accepted i.registry i.config.limit.toNat [] ∧ Spells ts e) ∧
    ∀ n, i.runTokens ts = .error (.manyExpressions n) → 2 ≤ n ∧
      ∃ es : List Expr, es.length = n ∧ (∀ e ∈ es, e.Accepted i.registry i.config.limit.toNat []) ∧
        ts.filterMap Token.lexeme? = Expr.lexemesAll es ∧
        ∀ es' : List Expr, (∀ e ∈ es', e.Accepted i.registry i.config.limit.toNat []) →
          ts.filterMap Token.lexeme? = Expr.lexemesAll es' → es' = es := by
  constructor
  · intro v h
    rw [i.runTokens_eq, bind_eq_ok_iff] at h
    obtain ⟨m, hrun, ho⟩ := h
    obtain ⟨hm, hf, hlen⟩ := Machine.outcome_eq_ok ho
    obtain ⟨es, hes, hall, hls, huniq⟩ := (Machine.hasRead_of_run hrun).trees hm hf
    obtain ⟨e, rfl⟩ := List.length_eq_one_iff.1 (hes.trans hlen)
    refine ⟨e, ⟨hall e (by simp), by simpa [Spells, Expr.lexemesAll] using hls⟩, ?_⟩
    rintro e' ⟨he', hs'⟩
    have hsingle := huniq [e'] (by simpa using he') (by simpa [Spells, Expr.lexemesAll] using hs')
    simpa using hsingle
  · intro n h
    rw [i.runTokens_eq, bind_eq_error_iff] at h
    rcases h with h | ⟨m, hrun, ho⟩
    · exact absurd h (Machine.result_run_ne_manyExpressions hreg ts)
    · obtain ⟨hm, hf, hlen, htwo⟩ := Machine.outcome_eq_manyExpressions ho
      obtain ⟨es, hes, hall⟩ := (Machine.hasRead_of_run hrun).trees hm hf
      exact ⟨htwo, es, hes.trans hlen, hall⟩

private def negation : Builtin where
  name := "not"
  overloads := [⟨[.bool], fun
    | [.bool b] => .ok (.bool !b)
    | _ => .error (.overflow "not")⟩]

/-- The tokens of `(def x true (not x))`. -/
private def negated : List Token :=
  [⟨.openParen, "(", 0⟩, ⟨.identifier, "def", 1⟩, ⟨.whitespace, " ", 4⟩, ⟨.identifier, "x", 5⟩, ⟨.bool, "true", 7⟩,
    ⟨.openParen, "(", 12⟩, ⟨.identifier, "not", 13⟩, ⟨.whitespace, " ", 16⟩, ⟨.identifier, "x", 17⟩,
    ⟨.closeParen, ")", 18⟩, ⟨.closeParen, ")", 19⟩]

private def negatedTree : Expr :=
  .binding "x" [.datum (.literal ⟨.bool, "true", 7⟩), .form "not" [.name "x"]]

private def negating : Interpreter where
  registry := (Registry.empty.register negation).1
  config := ⟨2⟩

private theorem avoids_negating : negating.registry.Avoids (·.category = .parse) := by
  intro b hb o ho args e h
  obtain rfl : b = negation := List.mem_singleton.1 hb
  simp only [negation, List.mem_singleton] at ho
  subst ho
  simp only at h
  split at h
  · cases h
  · cases h
    simp [Error.category]

private theorem negatedTree_accepted : negatedTree.Accepted negating.registry negating.config.limit.toNat [] where
  valid := .definition "x" (.datum (.literal rfl)) (.call rfl rfl (by simpa using .name "x"))
  nesting_le := by decide
  bound := .binding (by simpa using .datum [] _) (by simpa using .form (by simpa using .name (by simp)))

/-- With room for its two parentheses the definition has a value and spells one tree; written twice, it spells two. -/
theorem accepted_negated : negating.runTokens negated = .ok (.bool false) ∧ Spells negated negatedTree ∧
    (∀ e : Expr, e.Accepted negating.registry negating.config.limit.toNat [] → Spells negated e → e = negatedTree) ∧
    negating.runTokens (negated ++ negated) = .error (.manyExpressions 2) ∧
    ∀ es : List Expr, (∀ e ∈ es, e.Accepted negating.registry negating.config.limit.toNat []) →
      (negated ++ negated).filterMap Token.lexeme? = Expr.lexemesAll es → es.length = 2 := by
  have hone : negating.runTokens negated = .ok (.bool false) := rfl
  have htwo : negating.runTokens (negated ++ negated) = .error (.manyExpressions 2) := rfl
  have hs : Spells negated negatedTree := by decide
  refine ⟨hone, hs, fun e he hse => ?_, htwo, fun es hes hls => ?_⟩
  · have huniq := (accepted_of_runTokens negating negated avoids_negating).1 _ hone
    exact huniq.unique ⟨he, hse⟩ ⟨negatedTree_accepted, hs⟩
  · obtain ⟨-, es', hlen, -, -, huniq⟩ :=
      (accepted_of_runTokens negating (negated ++ negated) avoids_negating).2 2 htwo
    rw [huniq es hes hls, hlen]

end SinglePass
