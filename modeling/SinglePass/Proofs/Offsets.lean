import SinglePass.Proofs.Acceptance
import SinglePass.Proofs.Registering
import SinglePass.Proofs.Tiling
import SinglePass.Proofs.TreeEvaluation
import SinglePass.Proofs.Writing

/-!
# The offsets of errors

An error that has an offset points at its cause.  The lexer reports a character at the byte where it stands.  All other
offsets are those of the token at which a run has failed, and that token is a piece of the source, so what is left is to
say what kind of token it is and what stands before it.

The machine itself knows only what it expects next: a callee, a name to bind, or an item of an array.  Each of these is
called for by the tokens just read (`Machine.Expects`), which every step keeps up (`Machine.Expects.step`).  In
particular a name is expected behind an opening parenthesis and `def` only, because a frame that has received a name or
a value does not wait for a name any more.
-/

namespace SinglePass

/-! ### The tokens just read -/

namespace Token

variable {ts : List Token} {t : Token}

/-- The last token that counts is an opening parenthesis. -/
def BehindParen (ts : List Token) : Prop :=
  ∃ (us : List Token) (p : Token), nonBlank ts = us ++ [p] ∧ p.kind = .openParen

/-- The last two tokens that count are an opening parenthesis and the name `def`. -/
def BehindDef (ts : List Token) : Prop :=
  ∃ (us : List Token) (p d : Token),
    nonBlank ts = us ++ [p, d] ∧ p.kind = .openParen ∧ d.kind = .identifier ∧ d.text = "def"

theorem nonBlank_concat_of_blank (ts : List Token) (h : t.kind = .whitespace) :
    nonBlank (ts ++ [t]) = nonBlank ts := by
  simp [nonBlank, isBlank, h]

theorem nonBlank_concat (ts : List Token) (h : t.kind ≠ .whitespace) : nonBlank (ts ++ [t]) = nonBlank ts ++ [t] := by
  simp [nonBlank, isBlank, h]

theorem behindParen_concat (ts : List Token) (h : t.kind = .openParen) : BehindParen (ts ++ [t]) :=
  ⟨nonBlank ts, t, nonBlank_concat ts (by simp [h]), h⟩

theorem BehindParen.def (h : BehindParen ts) (hk : t.kind = .identifier) (ht : t.text = "def") :
    BehindDef (ts ++ [t]) := by
  obtain ⟨us, p, hus, hp⟩ := h
  refine ⟨us, p, t, ?_, hp, hk, ht⟩
  rw [nonBlank_concat ts (by simp [hk]), hus, List.append_assoc]
  rfl

end Token

namespace Machine

variable {registry : Registry} {limit : Nat} {m m' : Machine} {t : Token} {ts : List Token}

/-- What the machine expects next is called for by the tokens that it has read. -/
structure Expects (ts : List Token) (m : Machine) : Prop where
  callee : m.mode = .callee → Token.BehindParen ts
  name : m.mode = .operand → m.awaitsName = true → Token.BehindDef ts
  item : ∀ stack, m.mode = .array stack → ∃ t ∈ ts, t.kind = .openBracket

namespace Expects

theorem blank (h : Expects ts m) (hk : t.kind = .whitespace) : Expects (ts ++ [t]) m where
  callee hm := by
    obtain ⟨us, p, hus, hp⟩ := h.callee hm
    exact ⟨us, p, by rw [Token.nonBlank_concat_of_blank ts hk, hus], hp⟩
  name hm ha := by
    obtain ⟨us, p, d, hus, hd⟩ := h.name hm ha
    exact ⟨us, p, d, by rw [Token.nonBlank_concat_of_blank ts hk, hus], hd⟩
  item stack hm := by
    obtain ⟨u, hu, hopen⟩ := h.item stack hm
    exact ⟨u, List.mem_append_left _ hu, hopen⟩

/-- Where a tree can stand, nothing in particular is expected. -/
theorem of_operand (ts : List Token) (hm : m.mode = .operand) (ha : m.awaitsName = false) : Expects ts m where
  callee h := by
    rw [hm] at h
    cases h
  name _ h := by
    rw [ha] at h
    cases h
  item stack h := by
    rw [hm] at h
    cases h

theorem start : Expects [] .start := of_operand [] rfl rfl

theorem of_callee (hm : m.mode = .callee) (h : Token.BehindParen ts) : Expects ts m where
  callee _ := h
  name hm' := by
    rw [hm] at hm'
    cases hm'
  item stack hm' := by
    rw [hm] at hm'
    cases hm'

theorem of_array {stack : List (List Value)} (hm : m.mode = .array stack) (h : ∃ t ∈ ts, t.kind = .openBracket) :
    Expects ts m where
  callee hm' := by
    rw [hm] at hm'
    cases hm'
  name hm' := by
    rw [hm] at hm'
    cases hm'
  item _ _ := h

theorem of_receive (ts : List Token) (hm : m.mode = .operand) (v : Value) : Expects ts (m.receive v) :=
  of_operand ts (by rw [mode_receive, hm]) (awaitsName_receive m v)

/-- A callee is followed by a name to bind only if it is `def`. -/
theorem enter (h : Expects ts m) (hm : m.mode = .callee) (hk : t.kind = .identifier) {callee : Callee}
    (hr : resolve registry t.text = .ok callee) :
    Expects (ts ++ [t]) { m with frames := .new callee m.scope :: m.frames, mode := .operand } := by
  refine ⟨nofun, fun _ ha => ?_, nofun⟩
  have hc : callee.form? = some .binding := (Frame.form?_of_awaitsName (f := .new callee m.scope) ha).1
  exact (h.callee hm).def hk (eq_def_of_resolve hr hc)

theorem step (h : Expects ts m) (hs : Step registry limit m t m') : Expects (ts ++ [t]) m' := by
  cases hs with
  | blank hk => exact h.blank hk
  | enter hm hk hr => exact h.enter hm hk hr
  | @item stack _ hm _ _ =>
    obtain ⟨u, hu, hopen⟩ := h.item stack hm
    exact of_array rfl ⟨u, List.mem_append_left _ hu, hopen⟩
  | closeArray _ _ _ => exact of_receive (m := { m with mode := .operand }) _ rfl _
  | takeName hm _ _ _ => exact of_operand _ hm (by simp [awaitsName, Frame.awaitsName])
  | openParen _ _ hk _ => exact of_callee rfl (Token.behindParen_concat ts hk)
  | openBracket _ _ hk _ => exact of_array rfl ⟨t, by simp, hk⟩
  | name hm _ _ _ | literal hm _ _ => exact of_receive _ hm _
  | @close f rest _ hm _ _ _ => exact of_receive (m := { m with frames := rest, scope := f.outerScope }) _ hm _

end Expects

theorem expects_of_run (h : (run registry limit .start ts).result = .ok m) : Expects ts m :=
  reached_induction (P := Expects) .start (fun _ _ _ _ hm hs => hm.step hs) h

end Machine

/-! ### What an error points at -/

namespace Error

/-- The byte of the source that an error names. -/
def offset? : Error → Option Nat
  | .uncovered offset _ | .badNumber offset _ | .nameInArray offset | .strayBracket offset | .noCallee offset
  | .noBinder offset => some offset
  | _ => none

/-- The token is the one that the error names, behind the tokens `us`. -/
def PointsAt (us : List Token) (t : Token) : Error → Prop
  | .badNumber offset text => t.offset = offset ∧ t.text = text ∧ (t.kind = .int ∨ t.kind = .float)
  | .nameInArray offset => t.offset = offset ∧ t.kind = .identifier ∧ ∃ u ∈ us, u.kind = .openBracket
  | .strayBracket offset => t.offset = offset ∧ t.kind = .closeBracket
  | .noCallee offset => t.offset = offset ∧ t.kind ≠ .whitespace ∧ t.kind ≠ .identifier ∧ Token.BehindParen us
  | .noBinder offset => t.offset = offset ∧ t.kind ≠ .whitespace ∧ t.kind ≠ .identifier ∧ t.kind ≠ .closeParen ∧
      Token.BehindDef us
  | _ => False

/-- The cause of the error stands in the source at the byte that the error names: the character that it names, or the
token that it points at among the tokens of the source. -/
def Located (source : String) : Error → Prop
  | .uncovered offset c => ∃ before after, source.toList = before ++ c :: after ∧ byteSize before = offset
  | e => ∃ us t vs, Lexer.tokenize Rule.standard source = .ok (us ++ t :: vs) ∧ t.SliceOf 0 source.toList ∧
      e.PointsAt us t

theorem PointsAt.offset_eq {us : List Token} {t : Token} {e : Error} {offset : Nat} (h : e.PointsAt us t)
    (ho : e.offset? = some offset) : t.offset = offset := by
  cases e <;> cases ho
  case uncovered => exact h.elim
  all_goals exact h.1

theorem PointsAt.located {source : String} {us vs : List Token} {t : Token} {e : Error} (h : e.PointsAt us t)
    (hts : Lexer.tokenize Rule.standard source = .ok (us ++ t :: vs)) : e.Located source := by
  have hslice : t.SliceOf 0 source.toList := Lexer.sliceOf_of_mem_tokenize hts (by simp)
  cases e with
  | uncovered => exact h.elim
  | _ => exact ⟨us, t, vs, hts, hslice, h⟩

theorem offset?_of_category {e : Error} (h : e.category = .type ∨ e.category = .arity) : e.offset? = none := by
  cases e <;> simp [category, offset?] at h ⊢

end Error

/-- A standard frame that fails names no byte of the source. -/
theorem Frame.offset?_of_result {f : Frame} {e : Error}
    (hf : Machine.resolve Standard.registry f.callee.name = .ok f.callee) (h : f.result = .error e) :
    e.offset? = none := by
  rcases Frame.error_of_result h with hc | ⟨b, o, hb, ho, hrun⟩
  · exact Error.offset?_of_category hc
  · rw [hb] at hf
    rcases Standard.error_of_run b (Machine.mem_of_resolve hf) o ho f.args e hrun with hc | ⟨name, rfl⟩
    · exact Error.offset?_of_category (.inl hc)
    · rfl

namespace Machine

variable {limit : Nat} {m : Machine} {t : Token} {us : List Token} {e : Error} {offset : Nat}

/-- Only numbers can be literals without a value. -/
theorem pointsAt_of_literal? (us : List Token) (h : t.literal? = some (.error e)) : e.PointsAt us t := by
  have he := literal?_eq_error h
  subst he
  refine ⟨rfl, rfl, ?_⟩
  unfold Token.literal? at h
  split at h
  · rename_i hk
    exact .inl hk
  · rename_i hk
    exact .inr hk
  all_goals cases h

/-- The token that fails inside an array. -/
theorem pointsAt_of_arrayStep {opened : Nat} {stack : List (List Value)} (hopen : ∃ u ∈ us, u.kind = .openBracket)
    (h : ArrayLiteral.step opened limit stack t = .error e) (ho : e.offset? = some offset) : e.PointsAt us t := by
  rcases arrayStep_eq_error h with ⟨-, -, rfl⟩ | ⟨-, rfl⟩ | ⟨-, rfl⟩ | ⟨hk, rfl⟩ | ⟨hlit, -⟩
  · cases ho
  · cases ho
  · cases ho
  · exact ⟨rfl, hk, hopen⟩
  · exact pointsAt_of_literal? us (literal?_of_arrayStep hlit h)

theorem pointsAt_of_fails (hrun : (run Standard.registry limit .start us).result = .ok m)
    (h : Fails Standard.registry limit m t e) (ho : e.offset? = some offset) : e.PointsAt us t := by
  have hexpects := expects_of_run hrun
  cases h with
  | noCallee hm hw hk => exact ⟨rfl, hw, hk, hexpects.callee hm⟩
  | item hm _ hstep => exact pointsAt_of_arrayStep (hexpects.item _ hm) hstep ho
  | noBinder hm ha hw hc hk => exact ⟨rfl, hw, hk, hc, hexpects.name hm ha⟩
  | strayBracket _ _ hk => exact ⟨rfl, hk⟩
  | literal _ _ hlit => exact pointsAt_of_literal? us hlit
  | result hm _ hf hv =>
    rw [Frame.offset?_of_result (resolved_of_run hrun hm hf) hv] at ho
    cases ho
  | unknownCallee | tooDeep | unbound | unbalanced => cases ho

theorem offset?_of_outcome (h : m.outcome = .error e) : e.offset? = none := by
  rcases error_of_outcome h with rfl | ⟨-, rfl⟩ | rfl | ⟨count, rfl⟩ <;> rfl

end Machine

/-- An error of a run over the tokens of a source points at one of them. -/
theorem pointsAt_of_runTokens {config : Config} {ts : List Token} {e : Error} {offset : Nat}
    (h : Interpreter.runTokens { config := config } ts = .error e) (ho : e.offset? = some offset) :
    ∃ us t vs, ts = us ++ t :: vs ∧ e.PointsAt us t := by
  rw [Interpreter.runTokens_eq, bind_eq_error_iff] at h
  rcases h with h | ⟨m, -, h⟩
  · obtain ⟨us, t, vs, m, rfl, hrun, hfails⟩ := Machine.fails_of_run h
    exact ⟨us, t, vs, rfl, Machine.pointsAt_of_fails hrun hfails ho⟩
  · rw [Machine.offset?_of_outcome h] at ho
    cases ho

/-- An error that names a byte of the source names one at which a character begins, and its cause stands there. -/
theorem located_of_evaluate {config : Config} {source : String} {e : Error} {offset : Nat}
    (h : Interpreter.evaluate { config := config } source = .error e) (ho : e.offset? = some offset) :
    offset < source.utf8ByteSize ∧
      (∃ before c after, source.toList = before ++ c :: after ∧ byteSize before = offset) ∧ e.Located source := by
  have hchar : ∀ before c after, source.toList = before ++ c :: after → byteSize before < source.utf8ByteSize := by
    intro before c after hsource
    have hpos := c.utf8Size_pos
    rw [← byteSize_toList, hsource, byteSize_append, byteSize]
    omega
  rw [Interpreter.evaluate_eq_bind, bind_eq_error_iff] at h
  rcases h with h | ⟨ts, hts, h⟩
  · rcases Lexer.tokenize_cases Rule.standard source with ⟨hok, -⟩ | ⟨before, c, after, hsource, herror, -⟩
    · cases hok.symm.trans h
    · cases herror.symm.trans h
      cases ho
      exact ⟨hchar before c after hsource, ⟨before, c, after, hsource, rfl⟩, before, after, hsource, rfl⟩
  · obtain ⟨us, t, vs, rfl, hpoints⟩ := pointsAt_of_runTokens h ho
    have hslice : t.SliceOf 0 source.toList := Lexer.sliceOf_of_mem_tokenize hts (by simp)
    obtain ⟨c, text, htext⟩ := List.exists_cons_of_ne_nil hslice.toList_ne_nil
    obtain ⟨-, before, after, hsource, hoffset⟩ := hslice
    rw [hpoints.offset_eq ho, Nat.zero_add] at hoffset
    rw [htext] at hsource
    refine ⟨?_, ⟨before, c, text ++ after, hsource, hoffset.symm⟩, hpoints.located hts⟩
    rw [hoffset]
    exact hchar before c (text ++ after) hsource

private theorem isBlank_noBreak : ∀ c ∈ "\u00a0".toList, Text.isBlank c = true := by simp; decide

private theorem isBlank_wide : ∀ c ∈ "\u2003".toList, Text.isBlank c = true := by simp; decide

private theorem wellFormed_accented : Lexer.WellFormed .string "\"é\"".toList :=
  @Lexer.WellFormed.string ['é'] (by simp)

private def misnamed : List Lexer.Piece :=
  [⟨.openParen, "(", ⟨"\u00a0", isBlank_noBreak⟩, .openParen⟩,
    ⟨.identifier, "def", ⟨"\u2003", isBlank_wide⟩, Lexer.wellFormed_def⟩,
    ⟨.string, "\"é\"", .nothing, wellFormed_accented⟩,
    ⟨.closeParen, ")", .nothing, .closeParen⟩]

/-- A string is no name to bind.  It begins with the seventh character, but the blanks in front of it have two and three
bytes. -/
theorem located_of_misnamed : Lexer.Piece.write misnamed = "(\u00a0def\u2003\"é\")" ∧
    Interpreter.evaluate { config := ⟨1⟩ } (Lexer.Piece.write misnamed) = .error (.noBinder 9) ∧
    9 < (Lexer.Piece.write misnamed).utf8ByteSize ∧
    (∃ before c after, (Lexer.Piece.write misnamed).toList = before ++ c :: after ∧ byteSize before = 9) ∧
    (Error.noBinder 9).Located (Lexer.Piece.write misnamed) := by
  have htokens : Lexer.tokenize Rule.standard (Lexer.Piece.write misnamed) = .ok (Lexer.Piece.tokens 0 misnamed) := by
    refine Lexer.Lexes.tokenize_eq (Lexer.Piece.lexes_write ?_ fun _ _ _ => rfl)
    simp [misnamed, Lexer.Piece.Separated, Lexer.isWordy]
  have herror : Interpreter.evaluate { config := ⟨1⟩ } (Lexer.Piece.write misnamed) = .error (.noBinder 9) :=
    (Interpreter.evaluate_eq { config := ⟨1⟩ } htokens).trans rfl
  exact ⟨by decide, herror, located_of_evaluate herror rfl⟩

end SinglePass
