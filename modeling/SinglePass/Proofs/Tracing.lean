import SinglePass.Proofs.Parentheses
import SinglePass.Proofs.ReadingBack

/-!
# Traces

The events of an evaluation are well nested (`Event.WellNested`): a call is opened one deeper than the calls that are
open, the call that is closed is the latest open one, and a name is bound in a definition only, and only once.

What is open according to the events is what is open in the machine (`openCalls`).  A computation `Tracks` the open
calls if its events fit them and lead to the open calls of the machine that it ends with; there is one rule for each way
in which computations are put together, and a run tracks the calls because every step does.  The events before an error
are kept, so they have to fit even where the computation fails; all else is said of computations that do not fail.
-/

namespace SinglePass

/-! ### Open calls -/

/-- A call that is opened and not closed, with the number of names that were bound in it. -/
structure OpenCall where
  depth : Nat
  callee : String
  binds : Nat
deriving DecidableEq, Repr

namespace Event

/-- The open calls after an event, the latest first. -/
def advance (calls : List OpenCall) : Event → List OpenCall
  | .opened depth callee => ⟨depth, callee, 0⟩ :: calls
  | .bound _ => calls.modifyHead fun c => { c with binds := c.binds + 1 }
  | .closed _ _ _ => calls.tail
  | .started _ _ | .ended _ => calls

/-- The event can happen while these calls are open. -/
def Fits (calls : List OpenCall) : Event → Prop
  | .opened depth _ => depth = calls.length + 1
  | .bound _ => ∃ c ∈ calls.head?, c.callee = "def" ∧ c.binds = 0
  | .closed depth callee _ => ∃ c ∈ calls.head?, c.depth = depth ∧ c.callee = callee
  | .started _ _ | .ended _ => False

/-- A call that is closed is complete: the forms have three arguments, and a definition has bound its name. -/
def Completes (calls : List OpenCall) : Event → Prop
  | .closed _ callee args =>
    (callee = "def" → ∃ c ∈ calls.head?, c.binds = 1) ∧ (callee = "if" ∨ callee = "def" → args = 3)
  | _ => True

def isOpened : Event → Bool
  | .opened _ _ => true
  | _ => false

/-- The calls that are open after events. -/
def unclosed (calls : List OpenCall) (events : List Event) : List OpenCall := events.foldl advance calls

/-- Every event has the property, together with the calls that are open before it. -/
def Along (P : List OpenCall → Event → Prop) : List OpenCall → List Event → Prop
  | _, [] => True
  | calls, e :: events => P calls e ∧ Along P (e.advance calls) events

/-- Every event fits the calls that are open before it, beginning with none. -/
def WellNested (events : List Event) : Prop := Along Fits [] events

/-- Every call that is closed is complete. -/
def AllComplete (events : List Event) : Prop := Along Completes [] events

theorem unclosed_append (calls : List OpenCall) (events events' : List Event) :
    unclosed calls (events ++ events') = unclosed (unclosed calls events) events' := List.foldl_append

theorem Along.append {P : List OpenCall → Event → Prop} {calls : List OpenCall} {events events' : List Event}
    (h : Along P calls events) (h' : Along P (unclosed calls events) events') : Along P calls (events ++ events') := by
  induction events generalizing calls with
  | nil => exact h'
  | cons e events ih => exact ⟨h.1, ih h.2 h'⟩

end Event

/-- The open calls of a machine with these frames. -/
def openCalls : List Frame → List OpenCall
  | [] => []
  | f :: rest => ⟨rest.length + 1, f.callee.name, if f.hasBound then 1 else 0⟩ :: openCalls rest

theorem length_openCalls (frames : List Frame) : (openCalls frames).length = frames.length := by
  induction frames with
  | nil => rfl
  | cons f rest ih => rw [openCalls, List.length_cons, List.length_cons, ih]

namespace Machine

/-- The number of parentheses that are read and whose callee is not. -/
def pending (m : Machine) : Nat :=
  match m.mode with
  | .callee => 1
  | _ => 0

theorem pending_of_ne_callee {m : Machine} (h : m.mode ≠ .callee) : m.pending = 0 := by
  unfold pending
  split
  · contradiction
  · rfl

/-! ### Computations that track the open calls -/

/-- The events of the computation fit the calls that are open at its beginning.  If it does not fail, they lead to the
open calls of the machine that it ends with, all calls that are closed are complete, and so many parentheses are opened,
those included whose callee is still expected. -/
structure Tracks (calls : List OpenCall) (opens : Nat) (x : Traced Machine) : Prop where
  fits : Event.Along Event.Fits calls x.events
  unclosed_eq : ∀ m, x.result = .ok m → Event.unclosed calls x.events = openCalls m.frames
  complete : ∀ m, x.result = .ok m → Event.Along Event.Completes calls x.events
  opens_eq : ∀ m, x.result = .ok m → x.events.countP Event.isOpened + m.pending = opens

namespace Tracks

variable {α : Type} {calls : List OpenCall} {opens more : Nat}

theorem pure {m : Machine} (hc : calls = openCalls m.frames) (ho : m.pending = opens) :
    Tracks calls opens (Pure.pure m) := by
  refine ⟨trivial, ?_, fun _ _ => trivial, ?_⟩
  · intro m' h
    cases h
    exact hc
  · intro m' h
    cases h
    simpa using ho

theorem fail (e : Error) : Tracks calls opens (Traced.fail e) :=
  ⟨trivial, fun _ h => (nomatch h), fun _ h => (nomatch h), fun _ h => (nomatch h)⟩

theorem lift_bind {r : Except Error α} {f : α → Traced Machine} (h : ∀ a, r = .ok a → Tracks calls opens (f a)) :
    Tracks calls opens (Traced.lift r >>= f) := by
  cases r with
  | error e => exact fail e
  | ok a => exact h a rfl

/-- Reporting an event and going on.  That the event completes a call has to be known only if what follows does not
fail. -/
theorem emit_bind {e : Event} {f : Unit → Traced Machine} (hfits : e.Fits calls)
    (hcomplete : ∀ m, (f ()).result = .ok m → e.Completes calls) (hf : Tracks (e.advance calls) opens (f ()))
    (hmore : opens + (if e.isOpened then 1 else 0) = more) : Tracks calls more (Traced.emit e >>= f) := by
  have hevents : (Traced.emit e >>= f).events = e :: (f ()).events := rfl
  have hresult : (Traced.emit e >>= f).result = (f ()).result := by simp
  constructor
  · rw [hevents]
    exact ⟨hfits, hf.fits⟩
  · intro m h
    rw [hresult] at h
    rw [hevents]
    exact hf.unclosed_eq m h
  · intro m h
    rw [hresult] at h
    rw [hevents]
    exact ⟨hcomplete m h, hf.complete m h⟩
  · intro m h
    rw [hresult] at h
    have hopens := hf.opens_eq m h
    rw [hevents, List.countP_cons]
    omega

theorem bind {x : Traced Machine} {f : Machine → Traced Machine} (hx : Tracks calls opens x)
    (hf : ∀ m, x.result = .ok m → Tracks (openCalls m.frames) (m.pending + more) (f m)) :
    Tracks calls (opens + more) (x >>= f) := by
  cases hr : x.result with
  | error e =>
    have hresult : (x >>= f).result = .error e := by rw [Traced.result_bind, hr, error_bind]
    refine ⟨?_, ?_, ?_, ?_⟩
    · rw [Traced.events_bind_of_error hr]
      exact hx.fits
    all_goals
      intro m h
      rw [hresult] at h
      cases h
  | ok m =>
    have hresult : (x >>= f).result = (f m).result := by rw [Traced.result_bind, hr, ok_bind]
    have hm := hf m hr
    have hcalls := hx.unclosed_eq m hr
    rw [← hcalls] at hm
    constructor
    · rw [Traced.events_bind_of_ok hr]
      exact hx.fits.append hm.fits
    · intro m' h
      rw [hresult] at h
      rw [Traced.events_bind_of_ok hr, Event.unclosed_append]
      exact hm.unclosed_eq m' h
    · intro m' h
      rw [hresult] at h
      rw [Traced.events_bind_of_ok hr]
      exact (hx.complete m hr).append (hm.complete m' h)
    · intro m' h
      rw [hresult] at h
      have hfirst := hx.opens_eq m hr
      have hsecond := hm.opens_eq m' h
      rw [Traced.events_bind_of_ok hr, List.countP_append]
      omega

end Tracks

/-! ### Receiving values and closing frames -/

/-- A frame that receives a value binds its name if it is a definition without a value so far, and reports nothing
otherwise. -/
theorem events_deliver {m : Machine} {f : Frame} {rest : List Frame} (hf : m.frames = f :: rest) (hw : f.WellFormed)
    (ha : f.awaitsName = false) (v : Value) :
    (m.deliver v).events = [] ∧ (f.push v).hasBound = f.hasBound ∨
      ∃ name, (m.deliver v).events = [.bound name] ∧ f.callee = .form .binding ∧ f.hasBound = false ∧
        (f.push v).hasBound = true := by
  by_cases hc : f.callee.form? = some .binding
  · obtain ⟨name, hb⟩ := hw.exists_binder hc ha
    have hcallee := Frame.callee_of_form? hc
    have hat : f.bindAt = some 2 := by rw [hw.bindAt_eq, hc]; rfl
    cases hargs : f.args with
    | nil =>
      right
      refine ⟨name, ?_, hcallee, ?_, ?_⟩
      · simp [deliver, hf, Frame.bindsNow, Frame.push, Frame.argCount, hb, hat, hargs, bind]
      · simp [Frame.hasBound, hargs]
      · simp [Frame.hasBound, Frame.push, hc]
    | cons a as =>
      left
      constructor
      · simp [deliver, hf, Frame.bindsNow, Frame.push, Frame.argCount, hb, hat, hargs]
      · simp [Frame.hasBound, Frame.push, hargs]
  · left
    have hb := hw.binder_eq_none hc
    constructor
    · simp [deliver, hf, Frame.push, hb]
    · have hno : (f.callee.form? == some Form.binding) = false := by simpa using hc
      simp [Frame.hasBound, Frame.push, hno]

theorem pending_receive (m : Machine) (v : Value) : (m.receive v).pending = m.pending := by
  unfold pending
  rw [mode_receive]

theorem tracks_deliver {m : Machine} (hn : Nested m.frames m.scope) (ha : m.awaitsName = false) (v : Value) :
    Tracks (openCalls m.frames) m.pending (m.deliver v) := by
  cases hf : m.frames with
  | nil =>
    have hdeliver : m.deliver v = Pure.pure { m with values := m.values ++ [v] } := by simp [deliver, hf]
    rw [hdeliver]
    exact .pure (by rw [← hf]) rfl
  | cons f rest =>
    have hw : f.WellFormed := hn.wellFormed f (by simp [hf])
    have ha' : f.awaitsName = false := by simpa [awaitsName, hf] using ha
    have hframes : (m.receive v).frames = f.push v :: rest := by rw [receive_of_frame hf]
    rcases events_deliver hf hw ha' v with ⟨hevents, hbound⟩ | ⟨name, hevents, hcallee, hbefore, hafter⟩
    · have hdeliver : m.deliver v = Pure.pure (m.receive v) := Traced.ext hevents (result_deliver m v)
      rw [hdeliver]
      refine .pure ?_ (pending_receive m v)
      rw [hframes, openCalls, openCalls, hbound]
      rfl
    · have hdeliver : m.deliver v = Traced.emit (.bound name) >>= fun _ => Pure.pure (m.receive v) :=
        Traced.ext hevents (result_deliver m v)
      have hname : f.callee.name = "def" := by rw [hcallee]; rfl
      rw [hdeliver, openCalls, hbefore]
      refine Tracks.emit_bind ⟨_, rfl, hname, rfl⟩ (fun _ _ => trivial) (.pure ?_ (pending_receive m v)) rfl
      rw [hframes, openCalls, hafter]
      rfl

/-- A frame with a value has three arguments if it is a form, and has bound its name if it is a definition. -/
theorem completes_of_result {registry : Registry} {f : Frame} {v : Value}
    (hr : resolve registry f.callee.name = .ok f.callee) (h : f.result = .ok v) (rest : List Frame) :
    (Event.closed (rest.length + 1) f.callee.name f.argCount).Completes (openCalls (f :: rest)) := by
  have hform : ∀ form : Form, f.callee.name = form.name → f.callee = .form form ∧ f.argCount = 3 := by
    intro form hname
    rw [hname, resolve_form] at hr
    have hcallee : f.callee = .form form := (Except.ok.inj hr).symm
    exact ⟨hcallee, Frame.argCount_of_result hcallee h⟩
  constructor
  · intro hname
    obtain ⟨hcallee, hcount⟩ := hform .binding hname
    have hargs : f.args ≠ [] := by
      intro hnil
      simp only [Frame.argCount, hnil, List.length_nil] at hcount
      split at hcount <;> omega
    have hbound : f.hasBound = true := by simp [Frame.hasBound, hcallee, Callee.form?, hargs]
    rw [openCalls, hbound]
    exact ⟨_, rfl, rfl⟩
  · rintro (hname | hname)
    · exact (hform .conditional hname).2
    · exact (hform .binding hname).2

theorem tracks_leave {registry : Registry} {m : Machine} (hn : Nested m.frames m.scope)
    (hr : ∀ f rest, m.frames = f :: rest → resolve registry f.callee.name = .ok f.callee) :
    Tracks (openCalls m.frames) m.pending m.leave := by
  unfold leave
  split
  · exact .fail _
  · rename_i f rest hf
    rw [hf] at hn ⊢
    rw [List.length_cons]
    refine Tracks.emit_bind (e := .closed (rest.length + 1) f.callee.name f.argCount) ⟨_, rfl, rfl, rfl⟩ ?_ ?_ rfl
    · intro m' h
      rw [Traced.result_bind, bind_eq_ok_iff] at h
      obtain ⟨v, hv, -⟩ := h
      exact completes_of_result (hr f rest hf) hv rest
    · refine .lift_bind fun v _ => ?_
      cases hn with
      | cons _ hn hnone _ => exact tracks_deliver (m := { m with frames := rest, scope := f.outerScope }) hn hnone v

/-! ### Steps and runs -/

variable {registry : Registry} {limit : Nat} {m : Machine} {t : Token}

/-- The number of calls that are still to be opened for the parentheses up to the token. -/
def opensWith (m : Machine) (t : Token) : Nat := m.pending + if t.kind = .openParen then 1 else 0

theorem opensWith_of_ne (h : t.kind ≠ .openParen) : m.opensWith t = m.pending := by
  rw [opensWith, if_neg h, Nat.add_zero]

theorem tracks_enter (hm : m.mode = .callee) : Tracks (openCalls m.frames) (m.opensWith t) (m.enter registry t) := by
  unfold enter
  split
  · rename_i hk
    have hpending : m.pending = 1 := by unfold pending; rw [hm]
    rw [opensWith_of_ne (by simp [hk]), hpending]
    refine .lift_bind fun callee _ => ?_
    refine Tracks.emit_bind (e := .opened (m.frames.length + 1) callee.name) ?_ (fun _ _ => trivial) (.pure ?_ rfl) rfl
    · rw [Event.Fits, length_openCalls]
    · simp [Event.advance, openCalls, Frame.hasBound, Frame.new]
  · exact .fail _

theorem tracks_readItem {stack : List (List Value)} (hm : m.mode = .array stack) (hn : Nested m.frames m.scope)
    (ha : m.awaitsName = false) : Tracks (openCalls m.frames) (m.opensWith t) (m.readItem limit stack t) := by
  have hpending : m.pending = 0 := pending_of_ne_callee (by simp [hm])
  unfold readItem
  refine .lift_bind fun progress hs => ?_
  rw [opensWith_of_ne (kind_of_arrayStep hs).1, hpending]
  cases progress with
  | unfinished stack' => exact .pure rfl rfl
  | finished v => exact tracks_deliver (m := { m with mode := .operand }) hn ha v

/-- The name that a definition binds is read without an event; it is bound when its value is there. -/
theorem tracks_takeName : Tracks (openCalls m.frames) (m.opensWith t) (Traced.lift (m.takeName t)) := by
  unfold takeName
  split
  · rename_i hk
    rw [opensWith_of_ne (by simp [hk])]
    split
    · rename_i f rest hf
      refine .pure ?_ rfl
      rw [hf]
      rfl
    · exact .pure rfl rfl
  · exact .fail _

theorem tracks_readOperand (hm : m.mode = .operand) (hn : Nested m.frames m.scope)
    (ha : t.kind ≠ .closeParen → m.awaitsName = false)
    (hr : ∀ f rest, m.frames = f :: rest → resolve registry f.callee.name = .ok f.callee) :
    Tracks (openCalls m.frames) (m.opensWith t) (m.readOperand limit t) := by
  have hpending : m.pending = 0 := pending_of_ne_callee (by simp [hm])
  by_cases hopen : t.kind = .openParen
  · simp only [readOperand, hopen]
    refine .lift_bind fun _ _ => .pure rfl ?_
    rw [opensWith, hpending, if_pos hopen]
    rfl
  · rw [opensWith_of_ne hopen]
    unfold readOperand
    cases hk : t.kind <;> simp only
    case openParen => exact absurd hk hopen
    case closeParen => exact tracks_leave hn hr
    case openBracket => exact .lift_bind fun _ _ => .pure rfl hpending.symm
    case closeBracket => exact .fail _
    case identifier =>
      cases m.scope.lookup t.text with
      | none => exact .fail _
      | some v => exact tracks_deliver hn (ha (by simp [hk])) v
    case whitespace => exact .pure rfl rfl
    all_goals
      cases t.literal? with
      | none => exact .pure rfl rfl
      | some r => exact .lift_bind fun v _ => tracks_deliver hn (ha (by simp [hk])) v

/-- A step of a machine that was reached tracks its open calls. -/
theorem tracks_step {us : List Token} (hrun : (run registry limit .start us).result = .ok m) :
    Tracks (openCalls m.frames) (m.opensWith t) (step registry limit m t) := by
  obtain ⟨hn, hnamed⟩ := scoped_of_run hrun
  unfold step
  by_cases hb : t.isBlank = true
  · rw [if_pos hb, opensWith_of_ne (by simp [Token.isBlank] at hb; simp [hb])]
    exact .pure rfl rfl
  rw [if_neg hb]
  cases hm : m.mode with
  | callee => exact tracks_enter hm
  | array stack => exact tracks_readItem hm hn (hnamed (by simp [hm]))
  | operand =>
    simp only
    split
    · exact tracks_takeName
    · rename_i h
      refine tracks_readOperand hm hn (fun hc => ?_) fun f rest hf => resolved_of_run hrun hm hf
      simpa [hc] using h

/-- A run from a machine that was reached tracks its open calls. -/
theorem tracks_run {us : List Token} (hrun : (run registry limit .start us).result = .ok m) (ts : List Token) :
    Tracks (openCalls m.frames) (m.pending + Token.openParens ts) (run registry limit m ts) := by
  induction ts generalizing us m with
  | nil => exact .pure rfl rfl
  | cons t ts ih =>
    have hopens : m.pending + Token.openParens (t :: ts) = m.opensWith t + Token.openParens ts := by
      rw [Token.openParens_cons, opensWith]
      omega
    rw [hopens]
    exact (tracks_step hrun).bind fun m' h => ih (result_run_concat hrun (step_eq_ok_iff.1 h))

theorem tracks_run_start (registry : Registry) (limit : Nat) (ts : List Token) :
    Tracks [] (Token.openParens ts) (run registry limit .start ts) := by
  have hstart : (run registry limit .start []).result = .ok .start := rfl
  have h := tracks_run hstart ts
  rwa [pending_of_ne_callee (by simp [start]), Nat.zero_add] at h

end Machine

/-! ### Traces of sources -/

namespace Interpreter

variable (i : Interpreter) {source : String} {ts : List Token}

theorem events_trace_of_error {e : Error} (h : i.tokenize source = .error e) : (i.trace source).events = [] := by
  unfold trace
  rw [h]
  rfl

theorem events_trace (h : i.tokenize source = .ok ts) :
    (i.trace source).events = .started source.utf8ByteSize ts.length :: (i.traceTokens ts).events := by
  unfold trace
  rw [h]
  rfl

/-- The events of an evaluation are those of the run, and the last one tells the value. -/
theorem events_traceTokens_of_ok {v : Value} (h : i.runTokens ts = .ok v) :
    ∃ m, (Machine.run i.registry i.config.limit.toNat .start ts).result = .ok m ∧ m.outcome = .ok v ∧
      (i.traceTokens ts).events = (Machine.run i.registry i.config.limit.toNat .start ts).events ++ [.ended v] := by
  rw [i.runTokens_eq, bind_eq_ok_iff] at h
  obtain ⟨m, hrun, ho⟩ := h
  refine ⟨m, hrun, ho, ?_⟩
  unfold traceTokens
  rw [Traced.events_bind_of_ok hrun, ho]
  rfl

theorem events_traceTokens_of_error {e : Error} (h : i.runTokens ts = .error e) :
    (i.traceTokens ts).events = (Machine.run i.registry i.config.limit.toNat .start ts).events := by
  rw [i.runTokens_eq] at h
  unfold traceTokens
  cases hrun : (Machine.run i.registry i.config.limit.toNat .start ts).result with
  | error e' => rw [Traced.events_bind_of_error hrun]
  | ok m =>
    rw [hrun, ok_bind] at h
    rw [Traced.events_bind_of_ok hrun, h]
    exact List.append_nil _

end Interpreter

/-- A source that is no list of tokens reports nothing.  Any other evaluation reports its beginning, then calls that
are opened, bind names and are closed in a well-nested way, and then its value if there is one.  If there is one, all
calls are closed and complete, and there are as many of them as opening parentheses. -/
theorem trace_wellNested (i : Interpreter) (source : String) :
    (∀ e, i.tokenize source = .error e → (i.trace source).events = []) ∧
    ∀ ts, i.tokenize source = .ok ts → ∃ calls, Event.WellNested calls ∧
      (∀ v, i.evaluate source = .ok v →
        (i.trace source).events = .started source.utf8ByteSize ts.length :: calls ++ [.ended v] ∧
        Event.unclosed [] calls = [] ∧ calls.countP Event.isOpened = Token.openParens ts ∧ Event.AllComplete calls) ∧
      ∀ e, i.evaluate source = .error e →
        (i.trace source).events = .started source.utf8ByteSize ts.length :: calls := by
  refine ⟨fun e h => i.events_trace_of_error h, fun ts hts => ?_⟩
  have htracks := Machine.tracks_run_start i.registry i.config.limit.toNat ts
  rw [i.events_trace hts, i.evaluate_eq hts]
  refine ⟨_, htracks.fits, fun v hv => ?_, fun e he => by rw [i.events_traceTokens_of_error he]⟩
  obtain ⟨m, hrun, ho, hevents⟩ := i.events_traceTokens_of_ok hv
  obtain ⟨hm, hf, -⟩ := Machine.outcome_eq_ok ho
  refine ⟨by rw [hevents, List.cons_append], ?_, ?_, htracks.complete m hrun⟩
  · have hcalls := htracks.unclosed_eq m hrun
    rwa [hf] at hcalls
  · have hopens := htracks.opens_eq m hrun
    rwa [Machine.pending_of_ne_callee (by simp [hm]), Nat.add_zero] at hopens

/-- A definition inside a definition, which binds the same name. -/
private def twice : List Lexer.Piece :=
  [⟨.openParen, "(", .nothing, .openParen⟩, ⟨.identifier, "def", .space, Lexer.wellFormed_def⟩,
    ⟨.identifier, "x", .space, Lexer.wellFormed_x⟩, ⟨.int, "1", .nothing, Lexer.wellFormed_one⟩,
    ⟨.openParen, "(", .nothing, .openParen⟩, ⟨.identifier, "def", .space, Lexer.wellFormed_def⟩,
    ⟨.identifier, "x", .space, Lexer.wellFormed_x⟩, ⟨.identifier, "x", .space, Lexer.wellFormed_x⟩,
    ⟨.identifier, "x", .nothing, Lexer.wellFormed_x⟩, ⟨.closeParen, ")", .nothing, .closeParen⟩,
    ⟨.closeParen, ")", .nothing, .closeParen⟩]

/-- Two calls are opened, both bind a name, and both are closed. -/
theorem trace_wellNested_twice : Lexer.Piece.write twice = "(def x 1(def x x x))" ∧
    ∃ calls, Event.WellNested calls ∧ Event.unclosed [] calls = [] ∧ calls.countP Event.isOpened = 2 ∧
      Event.AllComplete calls ∧
      (Interpreter.trace {} "(def x 1(def x x x))").events = .started 20 16 :: calls ++ [.ended (.int 1)] := by
  have hwrite : Lexer.Piece.write twice = "(def x 1(def x x x))" := by decide
  have htokens : Interpreter.tokenize {} (Lexer.Piece.write twice) = .ok (Lexer.Piece.tokens 0 twice) := by
    refine Lexer.Lexes.tokenize_eq (Lexer.Piece.lexes_write ?_ fun _ _ _ => rfl)
    simp [twice, Lexer.Piece.Separated, Lexer.isWordy, Lexer.Blanks.space]
  have hvalue : Interpreter.evaluate {} (Lexer.Piece.write twice) = .ok (.int 1) :=
    (Interpreter.evaluate_eq {} htokens).trans rfl
  rw [hwrite] at htokens hvalue
  obtain ⟨calls, hnested, hok, -⟩ := (trace_wellNested {} "(def x 1(def x x x))").2 _ htokens
  obtain ⟨hevents, hclosed, hopens, hcomplete⟩ := hok _ hvalue
  exact ⟨hwrite, calls, hnested, hclosed, hopens, hcomplete, hevents⟩

end SinglePass
