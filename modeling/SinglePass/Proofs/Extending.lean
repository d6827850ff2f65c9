import SinglePass.Proofs.Registering

/-!
# Registries that grow

Registering a builtin never takes anything away: under every name that a registry knows, it knows the same overloads
afterwards, and new ones only behind them (`Registry.Extends`).  That is so even if the registration fails on the way.
A call takes the first overload that fits, so a call that finds one still finds the same one
(`Builtin.Extends.resolve`).

Two machines, one of them over the grown registry, then go in step for as long as the other one does not fail
(`Machine.Extends.step`): they differ in the overloads behind the callees of their frames and in nothing else.  Names of
variables are not looked up in the registry, and the forms are found before it, so that new names change nothing.
-/

namespace SinglePass

/-! ### What a registration changes -/

namespace Registry

theorem prefix_addOverloads (held more : List Overload) : held <+: (addOverloads held more).1 := by
  induction more generalizing held with
  | nil => exact List.prefix_rfl
  | cons o more ih =>
    unfold addOverloads
    split
    · exact List.prefix_rfl
    · exact (List.prefix_append held [o]).trans (ih (held ++ [o]))

theorem lookup_put (name : String) (os : List Overload) (es : List (String × Builtin)) (key : String) :
    (put name os es).lookup key =
      if name = key then some ⟨((es.lookup name).map Builtin.name).getD name, os⟩ else es.lookup key := by
  have hbeq : name ≠ key → (key == name) = false := fun h => beq_eq_false_iff_ne.2 (Ne.symm h)
  induction es with
  | nil =>
    by_cases h : name = key
    · simp [put, h]
    · simp [put, List.lookup_cons, hbeq h, h]
  | cons e es ih =>
    obtain ⟨k, c⟩ := e
    unfold put
    by_cases hk : k = name
    · subst hk
      by_cases h : k = key
      · simp [h]
      · simp [List.lookup_cons, hbeq h, h]
    · have hname : (name == k) = false := beq_eq_false_iff_ne.2 (Ne.symm hk)
      rw [if_neg hk, List.lookup_cons, ih, List.lookup_cons, List.lookup_cons, hname]
      by_cases h : name = key
      · subst h
        simp [hname]
      · simp [h]

/-- Only the name of the builtin is concerned, and it is known afterwards. -/
theorem find?_register (r : Registry) (b : Builtin) (name : String) :
    (r.register b).1.find? name =
      if b.name = name then some ⟨b.name, (addOverloads (r.overloads b.name) b.overloads).1⟩ else r.find? name := by
  have hname : ((r.find? b.name).map Builtin.name).getD b.name = b.name := by
    cases hfind : r.find? b.name with
    | none => rfl
    | some c => exact name_of_find? hfind
  refine (lookup_put b.name _ r.entries name).trans ?_
  rw [← find?, hname, ← find?]

end Registry

/-! ### Extensions -/

/-- The same name, and more overloads behind those that are there. -/
structure Builtin.Extends (b b' : Builtin) : Prop where
  name_eq : b'.name = b.name
  overloads_prefix : b.overloads <+: b'.overloads

namespace Builtin

theorem Extends.refl (b : Builtin) : b.Extends b := ⟨rfl, List.prefix_rfl⟩

theorem Extends.trans {a b c : Builtin} (hab : a.Extends b) (hbc : b.Extends c) : a.Extends c :=
  ⟨hbc.name_eq.trans hab.name_eq, hab.overloads_prefix.trans hbc.overloads_prefix⟩

theorem Extends.resolve {b b' : Builtin} (h : b.Extends b') {args : List Value} {o : Overload}
    (ho : b.resolve args = .ok o) : b'.resolve args = .ok o := by
  rw [resolve_eq_ok_iff] at ho ⊢
  obtain ⟨more, hmore⟩ := h.overloads_prefix
  rw [← hmore, List.find?_append, ho]
  rfl

end Builtin

namespace Registry

/-- Whatever is known under a name is known afterwards, with more overloads behind it. -/
def Extends (r r' : Registry) : Prop := ∀ name b, r.find? name = some b → ∃ b', r'.find? name = some b' ∧ b.Extends b'

theorem Extends.refl (r : Registry) : r.Extends r := fun _ b h => ⟨b, h, .refl b⟩

theorem Extends.trans {r r' r'' : Registry} (h : r.Extends r') (h' : r'.Extends r'') : r.Extends r'' := by
  intro name b hb
  obtain ⟨b', hb', hext⟩ := h name b hb
  obtain ⟨b'', hb'', hext'⟩ := h' name b' hb'
  exact ⟨b'', hb'', hext.trans hext'⟩

theorem extends_register (r : Registry) (b : Builtin) : r.Extends (r.register b).1 := by
  intro name c hc
  rw [find?_register]
  by_cases hname : b.name = name
  · have hheld : r.overloads b.name = c.overloads := by
      rw [hname]
      exact overloads_of_find? hc
    refine ⟨_, if_pos hname, ?_, ?_⟩
    · rw [name_of_find? hc, hname]
    · rw [hheld]
      exact prefix_addOverloads c.overloads b.overloads
  · exact ⟨c, by rw [if_neg hname, hc], .refl c⟩

/-- The registry after registering builtins one after another, those that fail included. -/
def extendBy (r : Registry) (bs : List Builtin) : Registry := bs.foldl (fun r b => (r.register b).1) r

theorem extends_extendBy (r : Registry) (bs : List Builtin) : r.Extends (r.extendBy bs) := by
  induction bs generalizing r with
  | nil => exact .refl r
  | cons b bs ih => exact (extends_register r b).trans (ih (r.register b).1)

end Registry

/-- The same form, or a builtin that was extended. -/
inductive Callee.Extends : Callee → Callee → Prop
  | form (f : Form) : Extends (.form f) (.form f)
  | builtin {b b' : Builtin} : b.Extends b' → Extends (.builtin b) (.builtin b')

theorem Callee.Extends.form?_eq {c c' : Callee} (h : c.Extends c') : c'.form? = c.form? := by
  cases h with
  | form f => rfl
  | builtin h => rfl

/-- The frames differ in their callees only. -/
structure Frame.Extends (f f' : Frame) : Prop where
  callee : f.callee.Extends f'.callee
  eq_with : f' = { f with callee := f'.callee }

/-- The machines differ in the callees of their frames only. -/
structure Machine.Extends (m m' : Machine) : Prop where
  frames : List.Forall₂ Frame.Extends m.frames m'.frames
  eq_with : m' = { m with frames := m'.frames }

/-! ### Calls -/

/-- A builtin that is called with these arguments, and the overload that is chosen for them. -/
structure Call where
  name : String
  args : List Value
  resolution : Except Error Overload

/-- The call that a frame makes when it closes; the forms make none. -/
def Frame.call? (f : Frame) : Option Call :=
  match f.callee with
  | .form _ => none
  | .builtin b => some ⟨b.name, f.args, b.resolve f.args⟩

/-- The call that is made at a token: a closing parenthesis calls what the innermost frame is for. -/
def Machine.call? (m : Machine) (t : Token) : Option Call :=
  match m.mode, t.kind with
  | .operand, .closeParen => m.frames.head?.bind Frame.call?
  | _, _ => none

/-- The calls that a run makes, in their order. -/
def Machine.calls (registry : Registry) (limit : Nat) (m : Machine) : List Token → List Call
  | [] => []
  | t :: ts =>
    (m.call? t).toList ++
      match (step registry limit m t).result with
      | .ok m' => calls registry limit m' ts
      | .error _ => []

namespace Frame

/-- The value of a frame that makes a call is what the chosen overload gives. -/
theorem result_of_call? {f : Frame} {c : Call} (h : f.call? = some c) :
    f.result = c.resolution >>= fun o => o.run c.args := by
  unfold call? at h
  unfold result
  cases hc : f.callee with
  | form form => simp [hc] at h
  | builtin b =>
    rw [hc] at h
    cases h
    rfl

theorem resolution_of_result {f : Frame} {v : Value} (h : f.result = .ok v) :
    ∀ c ∈ f.call?, ∃ o, c.resolution = .ok o := by
  intro c hc
  rw [result_of_call? hc, bind_eq_ok_iff] at h
  obtain ⟨o, ho, -⟩ := h
  exact ⟨o, ho⟩

namespace Extends

variable {f f' : Frame}

theorem new {c c' : Callee} (h : c.Extends c') (scope : Scope) : (Frame.new c scope).Extends (.new c' scope) := by
  refine ⟨h, ?_⟩
  simp only [Frame.new, h.form?_eq]

theorem args_eq (h : f.Extends f') : f'.args = f.args := by
  rw [h.eq_with]

theorem outerScope_eq (h : f.Extends f') : f'.outerScope = f.outerScope := by
  rw [h.eq_with]

theorem awaitsName_eq (h : f.Extends f') : f'.awaitsName = f.awaitsName := by
  rw [h.eq_with]
  simp only [awaitsName, h.callee.form?_eq]

theorem push (h : f.Extends f') (v : Value) : (f.push v).Extends (f'.push v) := by
  refine ⟨h.callee, ?_⟩
  rw [h.eq_with]
  rfl

theorem named (h : f.Extends f') (name : String) :
    { f with binder := some name }.Extends { f' with binder := some name } := by
  refine ⟨h.callee, ?_⟩
  rw [h.eq_with]

theorem scopeAfter_eq (h : f.Extends f') (scope : Scope) (v : Value) :
    Machine.scopeAfter f' scope v = Machine.scopeAfter f scope v := by
  rw [h.eq_with]
  rfl

theorem result (h : f.Extends f') {v : Value} (hv : f.result = .ok v) : f'.result = .ok v := by
  have hc := h.callee
  rw [h.eq_with]
  unfold Frame.result at hv ⊢
  simp only
  generalize f'.callee = c' at hc ⊢
  generalize f.callee = c at hc hv
  cases hc with
  | form form => exact hv
  | builtin hb =>
    simp only [Builtin.call, bind_eq_ok_iff] at hv ⊢
    obtain ⟨o, ho, hrun⟩ := hv
    exact ⟨o, hb.resolve ho, hrun⟩

/-- A frame that closes makes the same call. -/
theorem call?_eq (h : f.Extends f') {v : Value} (hv : f.result = .ok v) : f'.call? = f.call? := by
  have hc := h.callee
  have hres := resolution_of_result hv
  unfold call? at hres ⊢
  rw [h.args_eq]
  generalize f'.callee = c' at hc ⊢
  generalize f.callee = c at hc hres ⊢
  cases hc with
  | form form => rfl
  | @builtin b b' hb =>
    obtain ⟨o, ho⟩ := hres _ rfl
    simp only at ho ⊢
    rw [hb.name_eq, ho, hb.resolve ho]

end Extends

end Frame

/-! ### Two machines in step -/

namespace Machine

theorem call?_of_close {m : Machine} {t : Token} {f : Frame} {rest : List Frame} (hm : m.mode = .operand)
    (ht : t.kind = .closeParen) (hf : m.frames = f :: rest) : m.call? t = f.call? := by
  unfold call?
  rw [hm, ht, hf]
  rfl

theorem call?_of_ne {m : Machine} {t : Token} (ht : t.kind ≠ .closeParen) : m.call? t = none := by
  unfold call?
  split
  · rename_i hk
    exact absurd hk ht
  · rfl

namespace Extends

variable {m m' : Machine} {registry registry' : Registry} {limit : Nat} {t : Token}

theorem start : Machine.start.Extends .start := ⟨.nil, rfl⟩

theorem mode_eq (h : m.Extends m') : m'.mode = m.mode := by
  rw [h.eq_with]

theorem scope_eq (h : m.Extends m') : m'.scope = m.scope := by
  rw [h.eq_with]

theorem values_eq (h : m.Extends m') : m'.values = m.values := by
  rw [h.eq_with]

theorem length_frames (h : m.Extends m') : m'.frames.length = m.frames.length := h.frames.length_eq.symm

theorem awaitsName_eq (h : m.Extends m') : m'.awaitsName = m.awaitsName := by
  have hframes := h.frames
  unfold awaitsName
  generalize m.frames = frames at hframes ⊢
  generalize m'.frames = frames' at hframes ⊢
  cases hframes with
  | nil => rfl
  | cons hf _ => simp only [List.head?_cons, Option.any_some, hf.awaitsName_eq]

theorem of_frame (h : m.Extends m') {f : Frame} {rest : List Frame} (hf : m.frames = f :: rest) :
    ∃ f' rest', f.Extends f' ∧ List.Forall₂ Frame.Extends rest rest' ∧ m'.frames = f' :: rest' := by
  have hframes := h.frames
  rw [hf] at hframes
  exact List.forall₂_cons_left_iff.1 hframes

theorem with_mode (h : m.Extends m') (mode : Mode) : { m with mode := mode }.Extends { m' with mode := mode } := by
  refine ⟨h.frames, ?_⟩
  rw [h.eq_with]

theorem receive (h : m.Extends m') (v : Value) : (m.receive v).Extends (m'.receive v) := by
  cases hf : m.frames with
  | nil =>
    have hframes := h.frames
    rw [hf] at hframes
    have hf' : m'.frames = [] := List.forall₂_nil_left_iff.1 hframes
    rw [receive_of_no_frames hf, receive_of_no_frames hf']
    refine ⟨h.frames, ?_⟩
    rw [h.eq_with]
  | cons f rest =>
    obtain ⟨f', rest', hff', hrest, hf'⟩ := h.of_frame hf
    rw [receive_of_frame hf, receive_of_frame hf', hff'.scopeAfter_eq, h.scope_eq]
    refine ⟨.cons (hff'.push v) hrest, ?_⟩
    rw [h.eq_with]

theorem resolve (h : registry.Extends registry') {name : String} {callee : Callee}
    (hr : Machine.resolve registry name = .ok callee) :
    ∃ callee', Machine.resolve registry' name = .ok callee' ∧ callee.Extends callee' := by
  rcases resolve_eq_ok hr with ⟨form, hform, rfl⟩ | ⟨b, hform, hb, rfl⟩
  · refine ⟨.form form, ?_, .form form⟩
    simp only [Machine.resolve, hform]
  · obtain ⟨b', hb', hext⟩ := h name b hb
    refine ⟨.builtin b', ?_, .builtin hext⟩
    simp only [Machine.resolve, hform, hb']

/-- The machine over the grown registry takes every token that the other one takes, and makes the same call at it. -/
theorem step (hreg : registry.Extends registry') (h : m.Extends m') {n : Machine}
    (hs : Step registry limit m t n) :
    ∃ n', Step registry' limit m' t n' ∧ n.Extends n' ∧ m'.call? t = m.call? t ∧
      ∀ c ∈ m.call? t, ∃ o, c.resolution = .ok o := by
  have hmode := h.mode_eq
  have hlen := h.length_frames
  have hnocall : t.kind ≠ .closeParen → m'.call? t = m.call? t ∧ ∀ c ∈ m.call? t, ∃ o, c.resolution = .ok o := by
    intro hk
    rw [call?_of_ne hk, call?_of_ne hk]
    exact ⟨rfl, fun c hc => nomatch hc⟩
  cases hs with
  | blank ht => exact ⟨m', .blank ht, h, hnocall (by simp [ht])⟩
  | @enter callee hm ht hr =>
    obtain ⟨callee', hr', hext⟩ := resolve hreg hr
    refine ⟨_, .enter (hmode.trans hm) ht hr', ⟨?_, ?_⟩, hnocall (by simp [ht])⟩
    · rw [h.scope_eq]
      exact .cons (.new hext m.scope) h.frames
    · rw [h.eq_with]
  | @item stack stack' hm ht hs =>
    refine ⟨_, .item (hmode.trans hm) ht (hlen ▸ hs), h.with_mode _, hnocall ?_⟩
    intro hk
    simp [ArrayLiteral.step, hk] at hs
  | @closeArray stack v hm ht hs =>
    refine ⟨_, .closeArray (hmode.trans hm) ht (hlen ▸ hs), (h.with_mode _).receive v, hnocall ?_⟩
    intro hk
    simp [ArrayLiteral.step, hk] at hs
  | @takeName f rest hm hf ha ht =>
    obtain ⟨f', rest', hff', hrest, hf'⟩ := h.of_frame hf
    refine ⟨_, .takeName (hmode.trans hm) hf' (hff'.awaitsName_eq.trans ha) ht, ⟨?_, ?_⟩, hnocall (by simp [ht])⟩
    · exact .cons (hff'.named t.text) hrest
    · rw [h.eq_with]
  | openParen hm ha ht hl =>
    exact ⟨_, .openParen (hmode.trans hm) (h.awaitsName_eq.trans ha) ht (hlen ▸ hl), h.with_mode _,
      hnocall (by simp [ht])⟩
  | openBracket hm ha ht hl =>
    exact ⟨_, .openBracket (hmode.trans hm) (h.awaitsName_eq.trans ha) ht (hlen ▸ hl), h.with_mode _,
      hnocall (by simp [ht])⟩
  | @name v hm ha ht hv =>
    exact ⟨_, .name (hmode.trans hm) (h.awaitsName_eq.trans ha) ht (h.scope_eq ▸ hv), h.receive v,
      hnocall (by simp [ht])⟩
  | @literal v hm ha hv =>
    refine ⟨_, .literal (hmode.trans hm) (h.awaitsName_eq.trans ha) hv, h.receive v, hnocall ?_⟩
    intro hk
    simp [Token.literal?, hk] at hv
  | @close f rest v hm ht hf hv =>
    obtain ⟨f', rest', hff', hrest, hf'⟩ := h.of_frame hf
    refine ⟨_, .close (hmode.trans hm) ht hf' (hff'.result hv), receive ⟨hrest, ?_⟩ v, ?_, ?_⟩
    · rw [h.eq_with, hff'.outerScope_eq]
    · rw [call?_of_close hm ht hf, call?_of_close (hmode.trans hm) ht hf', hff'.call?_eq hv]
    · rw [call?_of_close hm ht hf]
      exact Frame.resolution_of_result hv

/-- A run that does not fail is a run over the grown registry with the same calls. -/
theorem run (hreg : registry.Extends registry') (h : m.Extends m') {ts : List Token} {n : Machine}
    (hrun : (Machine.run registry limit m ts).result = .ok n) :
    ∃ n', (Machine.run registry' limit m' ts).result = .ok n' ∧ n.Extends n' ∧
      calls registry' limit m' ts = calls registry limit m ts ∧
      ∀ c ∈ calls registry limit m ts, ∃ o, c.resolution = .ok o := by
  induction ts generalizing m m' with
  | nil =>
    cases hrun
    exact ⟨m', rfl, h, rfl, fun c hc => nomatch hc⟩
  | cons t ts ih =>
    rw [result_run_cons, bind_eq_ok_iff] at hrun
    obtain ⟨m₁, hstep, hrun⟩ := hrun
    obtain ⟨m₁', hstep', hext, hcall, hok⟩ := h.step hreg (step_eq_ok_iff.1 hstep)
    rw [← step_eq_ok_iff] at hstep'
    obtain ⟨n', hrun', hn, hcalls, hoks⟩ := ih hext hrun
    refine ⟨n', ?_, hn, ?_, ?_⟩
    · rw [result_run_cons, hstep', ok_bind, hrun']
    · simp only [calls, hstep, hstep', hcall, hcalls]
    · simp only [calls, hstep]
      intro c hc
      rcases List.mem_append.1 hc with hc | hc
      · exact hok c (Option.mem_toList.1 hc)
      · exact hoks c hc

theorem outcome_eq (h : m.Extends m') : m'.outcome = m.outcome := by
  have hdepth : m'.depth = m.depth := by
    simp only [depth, h.mode_eq, h.length_frames]
  simp only [outcome, h.mode_eq, hdepth, h.values_eq]

end Extends

end Machine

/-- Extending a registry is conservative.  After any builtins were registered, under new names or under names that are
in use, and whether or not some of the registrations failed, every evaluation that gave a value gives the same value,
and each of its calls takes the overload that it took before. -/
theorem runTokens_extendBy (i : Interpreter) (bs : List Builtin) (ts : List Token) {v : Value}
    (h : i.runTokens ts = .ok v) :
    Interpreter.runTokens { i with registry := i.registry.extendBy bs } ts = .ok v ∧
      Machine.calls (i.registry.extendBy bs) i.config.limit.toNat .start ts =
        Machine.calls i.registry i.config.limit.toNat .start ts ∧
      ∀ c ∈ Machine.calls i.registry i.config.limit.toNat .start ts, ∃ o, c.resolution = .ok o := by
  rw [i.runTokens_eq, bind_eq_ok_iff] at h
  obtain ⟨m, hrun, hv⟩ := h
  have hreg := Registry.extends_extendBy i.registry bs
  obtain ⟨m', hrun', hext, hcalls, hoks⟩ := Machine.Extends.start.run hreg hrun
  refine ⟨?_, hcalls, hoks⟩
  rw [Interpreter.runTokens_eq, bind_eq_ok_iff]
  exact ⟨m', hrun', hext.outcome_eq.trans hv⟩

/-- The tokens of `(def x "ab" (if true (length x) 0))`. -/
private def guardedLength : List Token :=
  [⟨.openParen, "(", 0⟩, ⟨.identifier, "def", 1⟩, ⟨.identifier, "x", 5⟩, ⟨.string, "\"ab\"", 7⟩, ⟨.openParen, "(", 12⟩,
    ⟨.identifier, "if", 13⟩, ⟨.bool, "true", 16⟩, ⟨.openParen, "(", 21⟩, ⟨.identifier, "length", 22⟩,
    ⟨.identifier, "x", 29⟩, ⟨.closeParen, ")", 30⟩, ⟨.int, "0", 32⟩, ⟨.closeParen, ")", 33⟩, ⟨.closeParen, ")", 34⟩]

/-- Builtins under the names of a form, of a variable and of a builtin whose second overload is taken. -/
private def newcomers : List Builtin :=
  [⟨"if", [⟨[.bool, .int, .int], fun _ => .ok (.int 7)⟩]⟩, ⟨"x", []⟩,
    ⟨"length", [⟨[.bool], fun _ => .ok (.int 1)⟩, ⟨[.str], fun _ => .ok (.int 0)⟩, ⟨[.int], fun _ => .ok (.int 3)⟩]⟩]

/-- The third registration fails after its first overload, and the length of `x` is still counted as before. -/
theorem runTokens_newcomers :
    (Standard.registry.registerEach newcomers).2 = some (.duplicate "length" [.str]) ∧
    ((Standard.registry.extendBy newcomers).overloads "length").map Overload.params = [[.str], [.array], [.bool]] ∧
    Interpreter.runTokens {} guardedLength = .ok (.int 2) ∧
    Interpreter.runTokens { registry := Standard.registry.extendBy newcomers } guardedLength = .ok (.int 2) ∧
    (Machine.calls Standard.registry 512 .start guardedLength).map Call.name = ["length"] ∧
    Machine.calls (Standard.registry.extendBy newcomers) 512 .start guardedLength =
      Machine.calls Standard.registry 512 .start guardedLength := by
  have h : Interpreter.runTokens {} guardedLength = .ok (.int 2) := rfl
  obtain ⟨hrun, hcalls, -⟩ := runTokens_extendBy {} newcomers guardedLength h
  exact ⟨rfl, rfl, h, hrun, rfl, hcalls⟩

end SinglePass
