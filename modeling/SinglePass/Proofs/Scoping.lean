import SinglePass.Proofs.Run

/-!
# The scope of a machine

The scope of a machine is determined by its open frames: it holds the bindings of those binding forms whose value is
already there, the innermost first, and nothing else.  The invariant is `Nested`: every frame was opened in the scope
that is active in the frame around it, and the machine is in the scope that is active in its innermost frame.

The delicate step is a closing parenthesis.  It takes back the binding of its frame, and the value that it hands to
the frame around it may at once make that frame bind its own name; so `Nested` has to know that a frame that waits for
a name is always the innermost one.
-/

namespace SinglePass

/-! ### Frames -/

namespace Frame

/-- What a frame binds: its name and the first of its arguments. -/
def binding? (f : Frame) : Option (String × Value) :=
  match f.callee, f.binder, f.args with
  | .form .binding, some name, v :: _ => some (name, v)
  | _, _, _ => none

/-- The scope in which the next argument of a frame is evaluated. -/
def activeScope (f : Frame) : Scope :=
  match f.binding? with
  | some (name, v) => f.outerScope.push name v
  | none => f.outerScope

/-- The frame is a binding form and has the value to bind. -/
def hasBound (f : Frame) : Bool := f.callee.form? == some .binding && !f.args.isEmpty

/-- The binding form is the only one with a name to bind, and has the name before all arguments. -/
structure WellFormed (f : Frame) : Prop where
  bindAt_eq : f.bindAt = f.callee.form?.bind Form.bindsAfter
  form_of_binder : f.binder.isSome → f.callee.form? = some .binding
  binder_of_args : f.callee.form? = some .binding → f.args ≠ [] → f.binder.isSome

theorem form?_of_awaitsName {f : Frame} (h : f.awaitsName = true) :
    f.callee.form? = some .binding ∧ f.binder = none ∧ f.args = [] := by
  simp only [awaitsName, Bool.and_eq_true, Option.isNone_iff_eq_none, List.isEmpty_iff] at h
  obtain ⟨⟨hc, hb⟩, ha⟩ := h
  refine ⟨?_, hb, ha⟩
  rcases hf : f.callee.form? with _ | _ | _ <;> simp [hf, Form.bindsName] at hc ⊢

theorem binding?_of_args_nil {f : Frame} (h : f.args = []) : f.binding? = none := by
  unfold binding?; rw [h]; split <;> simp_all

theorem activeScope_of_args_nil {f : Frame} (h : f.args = []) : f.activeScope = f.outerScope := by
  unfold activeScope; rw [binding?_of_args_nil h]

theorem binding?_of_not_binding {f : Frame} (h : f.callee.form? ≠ some .binding) : f.binding? = none := by
  unfold binding?
  split
  · rename_i hc _ _
    exact absurd (by rw [hc]; rfl) h
  · rfl

theorem activeScope_of_not_binding {f : Frame} (h : f.callee.form? ≠ some .binding) :
    f.activeScope = f.outerScope := by
  unfold activeScope; rw [binding?_of_not_binding h]

theorem WellFormed.new (callee : Callee) (scope : Scope) : (new callee scope).WellFormed where
  bindAt_eq := rfl
  form_of_binder := by simp [Frame.new]
  binder_of_args := by simp [Frame.new]

theorem WellFormed.named {f : Frame} (hf : f.WellFormed) (ha : f.awaitsName = true) (name : String) :
    { f with binder := some name }.WellFormed where
  bindAt_eq := hf.bindAt_eq
  form_of_binder := fun _ => (form?_of_awaitsName ha).1
  binder_of_args := fun _ _ => rfl

/-- A binding form that does not wait for its name has it. -/
theorem WellFormed.exists_binder {f : Frame} (hf : f.WellFormed) (hc : f.callee.form? = some .binding)
    (ha : f.awaitsName = false) : ∃ name, f.binder = some name := by
  rw [← Option.isSome_iff_exists]
  by_cases h : f.args = []
  · cases hb : f.binder with
    | none => simp [awaitsName, hc, hb, h, Form.bindsName] at ha
    | some name => rfl
  · exact hf.binder_of_args hc h

theorem WellFormed.binder_eq_none {f : Frame} (hf : f.WellFormed) (hc : f.callee.form? ≠ some .binding) :
    f.binder = none := by
  rw [← Option.not_isSome_iff_eq_none]
  exact fun h => hc (hf.form_of_binder h)

theorem WellFormed.push {f : Frame} (hf : f.WellFormed) (ha : f.awaitsName = false) (v : Value) :
    (f.push v).WellFormed where
  bindAt_eq := hf.bindAt_eq
  form_of_binder := hf.form_of_binder
  binder_of_args := fun hc _ => by
    obtain ⟨name, hb⟩ := hf.exists_binder hc ha
    show f.binder.isSome
    rw [hb]; rfl

theorem awaitsName_push (f : Frame) (v : Value) : (f.push v).awaitsName = false := by
  simp [awaitsName, Frame.push]

theorem callee_of_form? {f : Frame} (hc : f.callee.form? = some .binding) : f.callee = .form .binding := by
  cases hcal : f.callee with
  | form form => simpa [hcal, Callee.form?] using hc
  | builtin b => simp [hcal, Callee.form?] at hc

/-- A frame binds something as soon as it has the value to bind. -/
theorem WellFormed.hasBound_eq {f : Frame} (hf : f.WellFormed) : f.hasBound = f.binding?.isSome := by
  by_cases hc : f.callee.form? = some .binding
  · cases hargs : f.args with
    | nil => simp [hasBound, hargs, binding?_of_args_nil hargs]
    | cons v args =>
      obtain ⟨name, hb⟩ := Option.isSome_iff_exists.1 (hf.binder_of_args hc (by simp [hargs]))
      simp [hasBound, binding?, callee_of_form? hc, hb, hargs, Callee.form?]
  · simp [hasBound, binding?_of_not_binding hc, hc]

/-- A frame that binds with the next value is a binding form that has a name and no argument yet. -/
theorem WellFormed.binder_of_bindsNow {f : Frame} (hf : f.WellFormed) {v : Value} (h : (f.push v).bindsNow = true) :
    f.callee.form? = some .binding ∧ f.args = [] ∧ ∃ name, f.binder = some name := by
  have hat : f.bindAt = some (f.push v).argCount := of_decide_eq_true h
  rw [hf.bindAt_eq, Option.bind_eq_some_iff] at hat
  obtain ⟨form, hform, hafter⟩ := hat
  cases form with
  | conditional => cases hafter
  | binding =>
    have hcount : (f.push v).argCount = 2 := (Option.some.inj hafter).symm
    have hsome : f.binder.isSome := by
      -- without a name there would be no argument, and the value would be the first and not the second one
      by_contra hnone
      have hargs : f.args ≠ [] := fun hnil => by simp [argCount, Frame.push, hnone, hnil] at hcount
      exact hnone (hf.binder_of_args hform hargs)
    refine ⟨hform, List.length_eq_zero_iff.1 ?_, Option.isSome_iff_exists.1 hsome⟩
    simpa [argCount, Frame.push, hsome] using hcount

/-- A frame changes the scope only if it is a binding form that receives the value for its name. -/
theorem WellFormed.scopeAfter_cases {f : Frame} (hf : f.WellFormed) (scope : Scope) (v : Value) :
    Machine.scopeAfter f scope v = scope ∨ ∃ name, f.callee.form? = some .binding ∧ f.binder = some name ∧
      f.args = [] ∧ Machine.scopeAfter f scope v = scope.push name v := by
  unfold Machine.scopeAfter
  split
  · rename_i name hnow hb
    obtain ⟨hc, hargs, -⟩ := hf.binder_of_bindsNow hnow
    exact .inr ⟨name, hc, hb, hargs, rfl⟩
  · exact .inl rfl

/-- A frame that receives a value passes from its active scope to its next one: the binding form shifts the scope
with its first value, and with no other. -/
theorem WellFormed.scopeAfter_eq {f : Frame} (hf : f.WellFormed) (ha : f.awaitsName = false) (v : Value) :
    Machine.scopeAfter f f.activeScope v = (f.push v).activeScope := by
  by_cases hc : f.callee.form? = some .binding
  · obtain ⟨name, hb⟩ := hf.exists_binder hc ha
    have hcallee := callee_of_form? hc
    have hat : f.bindAt = some 2 := by rw [hf.bindAt_eq, hc]; rfl
    cases hargs : f.args with
    | nil =>
      rw [activeScope_of_args_nil hargs]
      simp [Machine.scopeAfter, activeScope, binding?, Frame.push, bindsNow, argCount, hcallee, hb, hat, hargs]
    | cons a as =>
      simp [Machine.scopeAfter, activeScope, binding?, Frame.push, bindsNow, argCount, hcallee, hb, hat, hargs]
  · have hb := hf.binder_eq_none hc
    rw [activeScope_of_not_binding hc, activeScope_of_not_binding (f := f.push v) hc]
    simp [Machine.scopeAfter, hb, Frame.push]

end Frame

/-! ### The invariant -/

/-- The frames, the innermost first, lead to the scope: each was opened in the active scope of the one around it,
and only the innermost may wait for a name. -/
inductive Nested : List Frame → Scope → Prop
  | nil : Nested [] .empty
  | cons {f : Frame} {rest : List Frame} {scope : Scope} : f.WellFormed → Nested rest f.outerScope →
      rest.head?.any Frame.awaitsName = false → scope = f.activeScope → Nested (f :: rest) scope

namespace Nested

theorem scope_eq {frames : List Frame} {scope : Scope} (h : Nested frames scope) :
    scope = (frames.head?.map Frame.activeScope).getD .empty := by
  cases h with
  | nil => rfl
  | cons _ _ _ hs => exact hs

theorem wellFormed {frames : List Frame} {scope : Scope} (h : Nested frames scope) :
    ∀ f ∈ frames, f.WellFormed := by
  induction h with
  | nil => simp
  | cons hf _ _ _ ih =>
    intro g hg
    rcases List.mem_cons.1 hg with rfl | hg
    · exact hf
    · exact ih g hg

/-- The frames around a frame are nested like the whole stack. -/
theorem of_append {inner outer : List Frame} {f : Frame} {scope : Scope} (h : Nested (inner ++ f :: outer) scope) :
    Nested outer f.outerScope := by
  induction inner generalizing scope with
  | nil =>
    cases h with
    | cons _ hn _ _ => exact hn
  | cons g inner ih =>
    cases h with
    | cons _ hn _ _ => exact ih hn

theorem bindings_eq {frames : List Frame} {scope : Scope} (h : Nested frames scope) :
    scope.bindings = frames.filterMap Frame.binding? := by
  induction h with
  | nil => rfl
  | @cons f rest scope _ _ _ hs ih =>
    rw [List.filterMap_cons, ← ih, hs]
    unfold Frame.activeScope
    cases f.binding? <;> rfl

/-- The outermost frame was opened in the empty scope. -/
theorem outermost {frames : List Frame} {scope : Scope} {f : Frame} (h : Nested frames scope)
    (hf : frames.getLast? = some f) : f.outerScope = .empty := by
  obtain ⟨inner, rfl⟩ := List.getLast?_eq_some_iff.1 hf
  have hn : Nested [] f.outerScope := of_append h
  exact hn.scope_eq

theorem depth_eq {frames : List Frame} {scope : Scope} (h : Nested frames scope) :
    scope.depth = frames.countP Frame.hasBound := by
  unfold Scope.depth
  rw [h.bindings_eq]
  induction h with
  | nil => rfl
  | cons hf _ _ _ ih => rw [List.filterMap_cons, List.countP_cons, ← ih, hf.hasBound_eq]; split <;> simp_all

theorem receive {m : Machine} (h : Nested m.frames m.scope) (ha : m.awaitsName = false) (v : Value) :
    Nested (m.receive v).frames (m.receive v).scope := by
  cases hf : m.frames with
  | nil =>
    rw [Machine.receive_of_no_frames hf]
    exact h
  | cons f rest =>
    rw [Machine.receive_of_frame hf]
    rw [hf] at h
    have ha' : f.awaitsName = false := by simpa [Machine.awaitsName, hf] using ha
    cases h with
    | cons hw hn hr hs =>
      refine .cons (hw.push ha' v) hn hr ?_
      rw [hs]
      exact hw.scopeAfter_eq ha' v

end Nested

/-- The invariant of the machine. -/
structure Machine.Scoped (m : Machine) : Prop where
  nested : Nested m.frames m.scope
  /-- A frame that waits for a name gets it before anything else is begun. -/
  named : m.mode ≠ .operand → m.awaitsName = false

namespace Machine

theorem awaitsName_receive (m : Machine) (v : Value) : (m.receive v).awaitsName = false := by
  cases hf : m.frames with
  | nil => rw [receive_of_no_frames hf]; simp [awaitsName, hf]
  | cons f rest => rw [receive_of_frame hf]; simp [awaitsName, Frame.awaitsName_push]

theorem Scoped.receive {m : Machine} (h : Nested m.frames m.scope) (ha : m.awaitsName = false) (v : Value) :
    (m.receive v).Scoped where
  nested := h.receive ha v
  named := fun _ => awaitsName_receive m v

theorem Scoped.start : Machine.start.Scoped where
  nested := .nil
  named := fun h => absurd rfl h

theorem Scoped.step {registry : Registry} {limit : Nat} {m m' : Machine} {t : Token} (h : m.Scoped)
    (hs : Step registry limit m t m') : m'.Scoped := by
  obtain ⟨hn, ha⟩ := h
  cases hs with
  | blank _ => exact ⟨hn, ha⟩
  | @enter callee hm _ _ =>
    -- the frame that was innermost so far cannot wait for a name while a callee is read
    refine ⟨.cons (.new callee m.scope) hn (ha (by simp [hm])) ?_, fun h => absurd rfl h⟩
    exact (Frame.activeScope_of_args_nil (f := .new callee m.scope) rfl).symm
  | item hm _ _ => exact ⟨hn, fun _ => ha (by simp [hm])⟩
  | @closeArray _ v hm _ _ => exact Scoped.receive (m := { m with mode := .operand }) hn (ha (by simp [hm])) v
  | @takeName f rest hm hf haw _ =>
    refine ⟨?_, fun h => absurd hm h⟩
    have hargs := (Frame.form?_of_awaitsName haw).2.2
    rw [hf] at hn
    cases hn with
    | cons hw hn hr hs =>
      refine .cons (hw.named haw t.text) hn hr ?_
      rw [hs, Frame.activeScope_of_args_nil hargs]
      exact (Frame.activeScope_of_args_nil (f := { f with binder := some t.text }) hargs).symm
  | openParen _ hna _ _ => exact ⟨hn, fun _ => hna⟩
  | openBracket _ hna _ _ => exact ⟨hn, fun _ => hna⟩
  | name _ hna _ _ => exact .receive hn hna _
  | literal _ hna _ => exact .receive hn hna _
  | @close f rest v _ _ hf _ =>
    rw [hf] at hn
    cases hn with
    | cons _ hn hr _ => exact Scoped.receive (m := { m with frames := rest, scope := f.outerScope }) hn hr v

/-- The invariant holds of every machine that is reached. -/
theorem scoped_of_run {registry : Registry} {limit : Nat} {ts : List Token} {m : Machine}
    (h : (run registry limit .start ts).result = .ok m) : m.Scoped :=
  reached_induction (P := fun _ m => m.Scoped) .start (fun _ _ _ _ hm hs => hm.step hs) h

/-- A closing parenthesis leads back to the scope in which its frame was opened, and from there at most to the scope
of the binding form that receives the value. -/
theorem Scoped.scope_of_close {registry : Registry} {limit : Nat} {m m' : Machine} {t : Token} (h : m.Scoped)
    (ht : t.kind = .closeParen) (hs : Step registry limit m t m') : ∃ f rest, m.frames = f :: rest ∧
      (m'.scope = f.outerScope ∨ ∃ g outer name v, rest = g :: outer ∧ g.callee.form? = some .binding ∧
        g.binder = some name ∧ g.args = [] ∧ m'.frames = g.push v :: outer ∧
        m'.scope = f.outerScope.push name v) := by
  cases hs with
  | @close f rest v hm _ hf hv =>
    refine ⟨f, rest, hf, ?_⟩
    have hn := h.nested
    rw [hf] at hn
    cases rest with
    | nil => exact .inl rfl
    | cons g outer =>
      have hg : g.WellFormed := hn.wellFormed g (by simp)
      rcases hg.scopeAfter_cases f.outerScope v with hs | ⟨name, hc, hb, hargs, hs⟩
      · exact .inl hs
      · exact .inr ⟨g, outer, name, v, rfl, hc, hb, hargs, rfl, hs⟩
  | blank hk | enter _ hk _ | takeName _ _ _ hk | openParen _ _ hk _ | openBracket _ _ hk _ | name _ _ hk _ =>
    rw [ht] at hk
    cases hk
  | literal _ _ hl =>
    have := literal?_isSome_iff.1 (Option.isSome_of_eq_some hl)
    simp [ht, Token.Kind.isLiteral] at this
  | item _ _ hs | closeArray _ _ hs => simp [ArrayLiteral.step, ht] at hs

/-- The scope of every machine that is reached is determined by its open frames.  The outermost frame was opened in
the empty scope and every other frame in the active scope of the frame around it; the machine is in the active scope of
its innermost frame.  So the scope holds one binding for each open binding form that has its value, and a closing
parenthesis takes back the binding of its frame. -/
theorem scope_of_reached {registry : Registry} {limit : Nat} {ts : List Token} {m : Machine}
    (h : (run registry limit .start ts).result = .ok m) :
    (∀ f, m.frames.getLast? = some f → f.outerScope = .empty) ∧
    (∀ inner f g outer, m.frames = inner ++ f :: g :: outer → f.outerScope = g.activeScope) ∧
    m.scope = (m.frames.head?.map Frame.activeScope).getD .empty ∧
    (∀ f ∈ m.frames, f.binder.isSome → f.callee.form? = some .binding) ∧
    (∀ f ∈ m.frames, f.callee.form? = some .binding → f.args ≠ [] → f.binder.isSome) ∧
    m.scope.depth = m.frames.countP Frame.hasBound ∧
    m.scope.bindings = m.frames.filterMap Frame.binding? ∧
    ∀ t m', t.kind = .closeParen → (step registry limit m t).result = .ok m' → ∃ f rest, m.frames = f :: rest ∧
      (m'.scope = f.outerScope ∨ ∃ g outer name v, rest = g :: outer ∧ g.callee.form? = some .binding ∧
        g.binder = some name ∧ g.args = [] ∧ m'.frames = g.push v :: outer ∧
        m'.scope = f.outerScope.push name v) := by
  have hm := scoped_of_run h
  have hn := hm.nested
  refine ⟨fun f hf => hn.outermost hf, ?_, hn.scope_eq, ?_, ?_, hn.depth_eq, hn.bindings_eq, ?_⟩
  · intro inner f g outer hf
    rw [hf] at hn
    exact (hn.of_append).scope_eq
  · exact fun f hf => (hn.wellFormed f hf).form_of_binder
  · exact fun f hf => (hn.wellFormed f hf).binder_of_args
  · exact fun t m' ht hs => hm.scope_of_close ht (step_eq_ok_iff.1 hs)

/-- The tokens of `(def x true (def y (def z false z)`. -/
private def threeDefinitions : List Token :=
  [⟨.openParen, "(", 0⟩, ⟨.identifier, "def", 1⟩, ⟨.identifier, "x", 5⟩, ⟨.bool, "true", 7⟩, ⟨.openParen, "(", 12⟩,
    ⟨.identifier, "def", 13⟩, ⟨.identifier, "y", 17⟩, ⟨.openParen, "(", 19⟩, ⟨.identifier, "def", 20⟩,
    ⟨.identifier, "z", 24⟩, ⟨.bool, "false", 26⟩, ⟨.identifier, "z", 32⟩, ⟨.closeParen, ")", 33⟩]

/-- The last token has closed the definition of `z` and given `y` its value: two bindings are left. -/
theorem scope_of_three_definitions : ∃ m, (run .empty 8 .start threeDefinitions).result = .ok m ∧
    m.scope.bindings.map Prod.fst = ["y", "x"] ∧ m.frames.countP Frame.hasBound = 2 ∧
    m.scope.depth = m.frames.countP Frame.hasBound ∧ m.scope.bindings = m.frames.filterMap Frame.binding? := by
  have hview : ((run .empty 8 .start threeDefinitions).result.toOption.map fun m =>
      (m.scope.bindings.map Prod.fst, m.frames.countP Frame.hasBound)) = some (["y", "x"], 2) := by decide
  cases h : (run .empty 8 .start threeDefinitions).result with
  | error e => simp [h, Except.toOption] at hview
  | ok m =>
    simp only [h, Except.toOption, Option.map_some, Option.some.injEq, Prod.mk.injEq] at hview
    obtain ⟨-, -, -, -, -, hdepth, hbindings, -⟩ := scope_of_reached h
    exact ⟨m, rfl, hview.1, hview.2, hdepth, hbindings⟩

end Machine

end SinglePass
