import SinglePass.Proofs.DepthLimit
import SinglePass.Proofs.ReadingBack

/-!
# Values that come from a source

Whatever a machine holds while it reads the tokens of a source is printable (`Value.Printable`): arrays are nested no
deeper than the limit, strings hold no quote, and the numbers in arrays are finite and not negative.  Only numbers that
stand alone may be anything, because arithmetic makes them.

New values come from three places.  A literal of a source has no sign and no quote inside (`Token.readable_of_shape`),
an array is made of such literals with room for its brackets (`OpenLists.step`), and the standard builtins keep values
printable (`Standard.preserves_printable`).  All else that a machine does moves values around
(`Machine.AllValues.step`).
-/

namespace SinglePass

/-! ### Printable values -/

namespace Value

/-- The first value occurs in the second one. -/
inductive Within (w : Value) : Value → Prop
  | refl : Within w w
  | item {v : Value} {items : List Value} : v ∈ items → Within w v → Within w (.array items)

/-- Arrays are nested no deeper than the limit, strings hold no quote, and all numbers in arrays can be written. -/
structure Printable (limit : Nat) (v : Value) : Prop where
  nesting_le : v.nesting ≤ limit
  no_quote : ∀ s, Within (.str s) v → ∀ c ∈ s.toList, c ≠ '"'
  int_in_array : ∀ items n, Within (.array items) v → .int n ∈ items → 0 ≤ n.toInt
  float_in_array : ∀ items x, Within (.array items) v → .float x ∈ items → x.isFinite = true ∧ x.negative = false

variable {limit : Nat} {v w : Value}

theorem nestingAll_le_iff {vs : List Value} {n : Nat} : nestingAll vs ≤ n ↔ ∀ v ∈ vs, v.nesting ≤ n := by
  induction vs with
  | nil => simp [nestingAll]
  | cons v vs ih => simp [nestingAll, ih]

theorem Readable.within (h : w.Within v) (hv : v.Readable) : w.Readable := by
  induction h with
  | refl => exact hv
  | item hmem _ ih =>
    cases hv with
    | array hitems => exact ih (hitems _ hmem)

theorem Readable.printable (h : v.Readable) (hn : v.nesting ≤ limit) : v.Printable limit where
  nesting_le := hn
  no_quote := by
    intro s hs
    cases h.within hs with
    | str hquote => exact hquote
  int_in_array := by
    intro items n hitems hmem
    cases h.within hitems with
    | array hall =>
      cases hall _ hmem with
      | int hn => exact hn
  float_in_array := by
    intro items x hitems hmem
    cases h.within hitems with
    | array hall =>
      cases hall _ hmem with
      | float hfinite hsign => exact ⟨hfinite, hsign⟩

/-- A number that stands alone is printable, whatever it is. -/
theorem printable_int (limit : Nat) (n : Int64) : Printable limit (.int n) where
  nesting_le := Nat.zero_le limit
  no_quote := fun _ h => nomatch h
  int_in_array := fun _ _ h => nomatch h
  float_in_array := fun _ _ h => nomatch h

theorem printable_float (limit : Nat) (x : Binary64) : Printable limit (.float x) where
  nesting_le := Nat.zero_le limit
  no_quote := fun _ h => nomatch h
  int_in_array := fun _ _ h => nomatch h
  float_in_array := fun _ _ h => nomatch h

theorem printable_bool (limit : Nat) (b : Bool) : Printable limit (.bool b) :=
  (Readable.bool b).printable (Nat.zero_le limit)

theorem printable_str_iff {s : String} : Printable limit (.str s) ↔ ∀ c ∈ s.toList, c ≠ '"' := by
  constructor
  · intro h
    exact h.no_quote s .refl
  · intro h
    exact (Readable.str h).printable (Nat.zero_le limit)

end Value

/-! ### Literals of a source -/

namespace Lexer.OnePass

/-- Every token of a source has one of the listed shapes. -/
theorem shape_of_mem_tokensFrom (offset : Nat) (before : Option Char) (cs : List Char) :
    ∀ ts, tokensFrom offset before cs = .ok ts → ∀ t ∈ ts, ∃ before v, Shape before v t.kind t.text.toList := by
  fun_induction tokensFrom offset before cs with
  | case1 offset before =>
    intro ts hts t ht
    cases hts
    cases ht
  | case2 | case3 =>
    intro ts hts
    cases hts
  | case4 offset before c cs kind n hnext found ih =>
    intro ts hts t ht
    obtain ⟨rest, hrest, hts⟩ := bind_eq_ok_iff.1 hts
    cases hts
    rcases List.mem_cons.1 ht with rfl | ht
    · obtain ⟨u, v, hsplit, hlen, hshape⟩ := shape_of_next? hnext
      have hu : found = u := by
        show c :: cs.take n = u
        rw [← List.take_succ_cons, hsplit]
        exact List.take_left' hlen
      refine ⟨before, v, ?_⟩
      rw [String.toList_ofList, hu]
      exact hshape
    · exact ih rest hrest t ht

end Lexer.OnePass

theorem Lexer.shape_of_mem_tokenize {source : String} {ts : List Token} (h : tokenize Rule.standard source = .ok ts)
    {t : Token} (ht : t ∈ ts) : ∃ before v, OnePass.Shape before v t.kind t.text.toList := by
  rw [OnePass.tokenize_eq_tableFrom, OnePass.tableFrom_eq_tokensFrom] at h
  exact OnePass.shape_of_mem_tokensFrom 0 none source.toList ts h t ht

theorem toInt_of_int64? {n : Int} {m : Int64} (h : int64? n = some m) : m.toInt = n := by
  unfold int64? at h
  split at h
  · rename_i hn
    cases h
    exact Int64.toInt_ofInt_of_le (by omega) (by omega)
  · cases h

/-- Digits without a sign denote a number that is not negative. -/
theorem toInt_of_readInt? {s : String} {n : Int64} (hs : ∀ c ∈ s.toList, c.isDigit = true) (h : readInt? s = some n) :
    0 ≤ n.toInt := by
  have hsign : Decimal.splitSign s.toList = (false, s.toList) :=
    Decimal.splitSign_of_isDigit fun c hc => hs c (List.mem_of_mem_head? hc)
  simp only [readInt?, Decimal.integer?, hsign, Option.bind_eq_some_iff, Option.map_eq_some_iff] at h
  obtain ⟨k, ⟨i, hi, rfl⟩, hk⟩ := h
  obtain ⟨d, -, hd⟩ := Option.bind_eq_some_iff.1 hi
  cases hd
  rw [toInt_of_int64? hk]
  simp

namespace Binary64

theorem toNat_ofMagnitude {n : Nat} (h : n < signBit) : (ofMagnitude false n).bits.toNat = n := by
  have hsize : n < 2 ^ 64 := h.trans (by decide)
  have hbits : (ofMagnitude false n).bits = UInt64.ofNat n := by
    rw [ofMagnitude, if_neg (by simp)]
  rw [hbits, UInt64.toNat_ofNat']
  exact Nat.mod_eq_of_lt hsize

theorem finite_of_ofDecimal? {coefficient : Nat} {exponent : Int} {x : Binary64}
    (h : ofDecimal? false coefficient exponent = some x) : x.isFinite = true ∧ x.negative = false := by
  unfold ofDecimal? at h
  simp only at h
  generalize nearestDecimal coefficient exponent = n at h
  by_cases hlt : n < infinite
  · rw [if_pos hlt, Option.some.injEq] at h
    have hsign : n < signBit := hlt.trans (by decide)
    have hbits := toNat_ofMagnitude hsign
    rw [h] at hbits
    constructor
    · rw [isFinite, magnitude, hbits, Nat.mod_eq_of_lt hsign]
      simpa using hlt
    · rw [negative, hbits]
      simpa using hsign
  · rw [if_neg hlt] at h
    cases h

end Binary64

/-- A decimal without a minus sign denotes a number that is finite and not negative. -/
theorem finite_of_readFloat? {s : String} {x : Binary64} (hs : ∀ c ∈ s.toList.head?, c ≠ '-')
    (h : readFloat? s = some x) : x.isFinite = true ∧ x.negative = false := by
  have hsign : (Decimal.splitSign s.toList).1 = false := by
    unfold Decimal.splitSign
    split
    · rename_i heq
      exact absurd rfl (hs '-' (by rw [heq]; rfl))
    · rfl
    · rfl
  simp only [readFloat?, Decimal.signed?, hsign, Option.bind_eq_some_iff, Option.map_eq_some_iff] at h
  obtain ⟨_, ⟨d, -, rfl⟩, hd⟩ := h
  exact Binary64.finite_of_ofDecimal? hd

/-- A literal token of a source denotes a readable value. -/
theorem Token.readable_of_shape {t : Token} {before : Option Char} {rest : List Char}
    (h : Lexer.OnePass.Shape before rest t.kind t.text.toList) {v : Value} (hv : t.literal? = some (.ok v)) :
    v.Readable ∧ v.nesting = 0 := by
  obtain ⟨kind, text, offset⟩ := t
  simp only at h
  generalize hcs : text.toList = cs at h
  cases h with
  | @string body hbody =>
    simp only [literal?, hcs, unquote_quoted, Option.some.injEq, Except.ok.injEq] at hv
    subst hv
    exact ⟨.str (by simpa using hbody), rfl⟩
  | @float whole fraction hwhole hfraction _ _ =>
    simp only [literal?, Option.some.injEq] at hv
    split at hv
    · rename_i x hx
      cases hv
      have hhead : ∀ c ∈ text.toList.head?, c ≠ '-' := by
        rintro c hc rfl
        rw [hcs] at hc
        cases whole with
        | nil => simp at hc
        | cons d whole =>
          obtain rfl : d = '-' := by simpa using hc
          exact absurd (hwhole '-' (by simp)) (by decide)
      obtain ⟨hfinite, hsign⟩ := finite_of_readFloat? hhead hx
      exact ⟨.float hfinite hsign, rfl⟩
    · cases hv
  | int _ hdigits _ =>
    simp only [literal?, Option.some.injEq] at hv
    split at hv
    · rename_i n hn
      cases hv
      exact ⟨.int (toInt_of_readInt? (by rwa [hcs]) hn), rfl⟩
    · cases hv
  | bool _ _ _ =>
    simp only [literal?, Option.some.injEq, Except.ok.injEq] at hv
    subst hv
    exact ⟨.bool _, rfl⟩
  | identifier | openParen | closeParen | openBracket | closeBracket | whitespace => simp [literal?] at hv

/-! ### Arrays that are being read -/

/-- Lists that are still open, the innermost first: their items are readable, and there is room for all brackets. -/
inductive OpenLists (limit : Nat) : List (List Value) → Prop
  | nil : OpenLists limit []
  | cons {items : List Value} {rest : List (List Value)} : OpenLists limit rest → rest.length < limit →
      (∀ v ∈ items, v.Readable ∧ rest.length + 1 + v.nesting ≤ limit) → OpenLists limit (items :: rest)

namespace OpenLists

variable {limit opened : Nat} {stack stack' rest : List (List Value)} {items : List Value} {t : Token} {v : Value}

theorem add (h : OpenLists limit (items :: rest)) (hv : v.Readable) (hn : rest.length + 1 + v.nesting ≤ limit) :
    OpenLists limit ((items ++ [v]) :: rest) := by
  cases h with
  | cons hrest hroom hitems => exact .cons hrest hroom (List.forall_mem_append.2 ⟨hitems, by simpa using ⟨hv, hn⟩⟩)

/-- A closing bracket makes an array of the innermost list, one level above its items. -/
theorem close (h : OpenLists limit (items :: rest)) :
    (Value.array items).Readable ∧ rest.length + (Value.array items).nesting ≤ limit := by
  cases h with
  | cons hrest hroom hitems =>
    refine ⟨.array fun v hv => (hitems v hv).1, ?_⟩
    have hle : Value.nestingAll items ≤ limit - (rest.length + 1) := by
      refine Value.nestingAll_le_iff.2 fun v hv => ?_
      have hn := (hitems v hv).2
      omega
    rw [Value.nesting]
    omega

theorem tail (h : OpenLists limit (items :: rest)) : OpenLists limit rest := by
  cases h with
  | cons hrest _ _ => exact hrest

theorem room (h : OpenLists limit (items :: rest)) : rest.length < limit := by
  cases h with
  | cons _ hroom _ => exact hroom

/-- A token keeps the lists in order, or finishes an array that is readable and not nested too deep. -/
theorem step {progress : ArrayLiteral.Progress} (h : OpenLists limit stack) (hne : stack ≠ [])
    (hlit : ∀ v, t.literal? = some (.ok v) → v.Readable ∧ v.nesting = 0)
    (hstep : ArrayLiteral.step opened limit stack t = .ok progress) :
    match progress with
    | .unfinished stack' => OpenLists limit stack'
    | .finished v => v.Readable ∧ v.nesting ≤ limit := by
  obtain ⟨items, rest, rfl⟩ := List.exists_cons_of_ne_nil hne
  by_cases hliteral : t.kind.isLiteral
  · obtain ⟨r, hr⟩ := Option.isSome_iff_exists.1 (Machine.literal?_isSome_iff.2 hliteral)
    rw [Machine.arrayStep_literal hr, bind_eq_ok_iff] at hstep
    obtain ⟨v, rfl, hstep⟩ := hstep
    cases hstep
    obtain ⟨hreadable, hnesting⟩ := hlit v hr
    have hroom := h.room
    exact h.add hreadable (by omega)
  cases hk : t.kind <;> simp only [hk, Token.Kind.isLiteral, not_true_eq_false] at hliteral <;>
    simp only [ArrayLiteral.step, hk] at hstep
  case openBracket =>
    rw [bind_eq_ok_iff] at hstep
    obtain ⟨u, hu, hstep⟩ := hstep
    cases hstep
    have hroom := Machine.lt_of_requireRoom hu
    exact .cons h (by omega) (by simp)
  case closeBracket =>
    obtain ⟨hreadable, hnesting⟩ := h.close
    cases rest with
    | nil =>
      cases hstep
      exact ⟨hreadable, by simpa using hnesting⟩
    | cons outer rest =>
      cases hstep
      exact h.tail.add hreadable (by simpa using hnesting)
  case whitespace =>
    cases hstep
    exact h
  all_goals cases hstep

end OpenLists

/-! ### The texts of numbers -/

theorem ne_quote_of_isDigit {c : Char} (h : c.isDigit = true) : c ≠ '"' := by
  rintro rfl
  exact absurd h (by decide)

namespace Decimal

theorem ofInt_ne_quote (n : Int) : ∀ c ∈ ofInt n, c ≠ '"' := by
  intro c hc
  cases n with
  | ofNat k => exact ne_quote_of_isDigit (isDigit_of_mem_digits hc)
  | negSucc k =>
    rcases List.mem_cons.1 hc with rfl | hc
    · decide
    · exact ne_quote_of_isDigit (isDigit_of_mem_digits hc)

theorem isDigit_of_mem_split (d : Decimal) : ∀ c ∈ d.split.1 ++ d.split.2, c.isDigit = true := by
  have hdigits : ∀ c ∈ digits d.coefficient, c.isDigit = true := fun c hc => isDigit_of_mem_digits hc
  have hzeros : ∀ n, ∀ c ∈ List.replicate n '0', c.isDigit = true := fun n c hc => isDigit_of_mem_replicate hc
  unfold split
  cases d.exponent with
  | ofNat k =>
    rw [List.append_nil]
    exact List.forall_mem_append.2 ⟨hdigits, hzeros k⟩
  | negSucc k =>
    simp only
    split
    · rwa [List.take_append_drop]
    · refine List.forall_mem_append.2 ⟨by simp, List.forall_mem_append.2 ⟨hzeros _, hdigits⟩⟩

theorem plain_ne_quote (d : Decimal) : ∀ c ∈ d.plain, c ≠ '"' := by
  have hsplit := List.forall_mem_append.1 d.isDigit_of_mem_split
  unfold plain
  split
  · rename_i whole hd
    rw [hd] at hsplit
    exact fun c hc => ne_quote_of_isDigit (hsplit.1 c hc)
  · rename_i whole fraction _ hd
    rw [hd] at hsplit
    intro c hc
    rcases List.mem_append.1 hc with hc | hc
    · exact ne_quote_of_isDigit (hsplit.1 c hc)
    · rcases List.mem_cons.1 hc with rfl | hc
      · decide
      · exact ne_quote_of_isDigit (hsplit.2 c hc)

end Decimal

theorem Binary64.plain_ne_quote (x : Binary64) : ∀ c ∈ x.plain, c ≠ '"' := by
  have hdef : x.plain =
      if !x.isFinite then
        if x.isNaN then "NaN".toList else if x.negative then '-' :: "inf".toList else "inf".toList
      else if x.negative then '-' :: (Decimal.shortest .up x).plain else (Decimal.shortest .up x).plain := rfl
  have hdigits := (Decimal.shortest .up x).plain_ne_quote
  have hminus : ∀ cs : List Char, (∀ c ∈ cs, c ≠ '"') → ∀ c ∈ '-' :: cs, c ≠ '"' := fun cs hcs =>
    List.forall_mem_cons.2 ⟨by decide, hcs⟩
  have hinf : ∀ c ∈ "inf".toList, c ≠ '"' := by simp
  rw [hdef]
  split
  · split
    · simp
    · split
      · exact hminus _ hinf
      · exact hinf
  · split
    · exact hminus _ hdigits
    · exact hdigits

/-! ### Builtins and frames -/

/-- The implementations keep what is true of their arguments. -/
def Registry.Preserves (P : Value → Prop) (r : Registry) : Prop :=
  ∀ b ∈ r.builtins, ∀ o ∈ b.overloads, ∀ args, (∀ a ∈ args, P a) → ∀ v, o.run args = .ok v → P v

theorem Standard.preserves_printable (limit : Nat) : registry.Preserves (Value.Printable limit) := by
  intro b hb o ho args hargs v h
  have hanswers := answers_of_run b hb o ho args
  rw [h] at hanswers
  cases hanswers with
  | int n => exact Value.printable_int limit n
  | float x => exact Value.printable_float limit x
  | bool b => exact Value.printable_bool limit b
  | @join a b heq =>
    subst heq
    have ha := Value.printable_str_iff.1 (hargs (.str a) (by simp))
    have hb := Value.printable_str_iff.1 (hargs (.str b) (by simp))
    rw [Value.printable_str_iff, String.toList_append]
    exact List.forall_mem_append.2 ⟨ha, hb⟩
  | spellInt n =>
    rw [Value.printable_str_iff, String.toList_ofList]
    exact Decimal.ofInt_ne_quote n.toInt
  | spellFloat x =>
    rw [Value.printable_str_iff, String.toList_ofList]
    exact x.plain_ne_quote

theorem Form.mem_of_apply {form : Form} {args : List Value} {v : Value} (h : form.apply args = .ok v) : v ∈ args := by
  unfold Form.apply at h
  split at h
  · rename_i condition yes no _
    split at h
    · rename_i b _
      cases h
      cases b <;> simp
    · cases h
  · cases h
    simp
  · cases h

/-- The value of a frame comes from its arguments: a form returns one of them, and a builtin keeps what is true of
them. -/
theorem Frame.holds_of_result {P : Value → Prop} {registry : Registry} (hreg : registry.Preserves P) {f : Frame}
    {v : Value} (hres : Machine.resolve registry f.callee.name = .ok f.callee) (hargs : ∀ a ∈ f.args, P a)
    (h : f.result = .ok v) : P v := by
  unfold Frame.result at h
  cases hc : f.callee with
  | form form =>
    rw [hc] at h
    obtain ⟨-, -, happly⟩ := bind_eq_ok_iff.1 h
    exact hargs v (Form.mem_of_apply happly)
  | builtin b =>
    rw [hc] at h hres
    obtain ⟨o, ho, hrun⟩ := bind_eq_ok_iff.1 h
    exact hreg b (Machine.mem_of_resolve hres) o (Builtin.mem_of_resolve ho) f.args hargs v hrun

/-! ### Whatever a machine holds -/

/-- All values of a frame: its arguments, and what is bound in the scope that it returns to. -/
structure Frame.AllValues (P : Value → Prop) (f : Frame) : Prop where
  args : ∀ v ∈ f.args, P v
  outerScope : ∀ b ∈ f.outerScope.bindings, P b.2

namespace Machine

/-- All finished values of a machine: its results, the values in its frames, and what is bound in its scope. -/
structure AllValues (P : Value → Prop) (m : Machine) : Prop where
  values : ∀ v ∈ m.values, P v
  frames : ∀ f ∈ m.frames, f.AllValues P
  scope : ∀ b ∈ m.scope.bindings, P b.2

namespace AllValues

variable {P : Value → Prop} {m m' : Machine} {registry : Registry} {limit : Nat} {t : Token} {v : Value}

theorem start : Machine.start.AllValues P where
  values := fun _ h => nomatch h
  frames := fun _ h => nomatch h
  scope := fun _ h => nomatch h

theorem lookup (h : m.AllValues P) {name : String} (hv : m.scope.lookup name = some v) : P v := by
  obtain ⟨before, after, hbindings, -⟩ := List.lookup_eq_some_iff.1 hv
  exact h.scope (name, v) (by simp [hbindings])

theorem of_frame (h : m.AllValues P) {f : Frame} {rest : List Frame} (hf : m.frames = f :: rest) :
    f.AllValues P ∧ ∀ g ∈ rest, g.AllValues P := by
  have hframes := h.frames
  rwa [hf, List.forall_mem_cons] at hframes

theorem receive (h : m.AllValues P) (hv : P v) : (m.receive v).AllValues P := by
  cases hf : m.frames with
  | nil =>
    rw [receive_of_no_frames hf]
    exact ⟨List.forall_mem_append.2 ⟨h.values, by simpa using hv⟩, h.frames, h.scope⟩
  | cons f rest =>
    obtain ⟨hframe, hrest⟩ := h.of_frame hf
    rw [receive_of_frame hf]
    refine ⟨h.values, ?_, ?_⟩
    · have hpush : (f.push v).AllValues P :=
        ⟨List.forall_mem_append.2 ⟨hframe.args, by simpa using hv⟩, hframe.outerScope⟩
      exact List.forall_mem_cons.2 ⟨hpush, hrest⟩
    · show ∀ b ∈ (scopeAfter f m.scope v).bindings, P b.2
      unfold scopeAfter
      split
      · exact List.forall_mem_cons.2 ⟨hv, h.scope⟩
      · exact h.scope

/-- A token adds the value of a literal, of an array that is finished or of a frame that closes; everything else was
there before. -/
theorem step (h : m.AllValues P) (hs : Step registry limit m t m') (hliteral : ∀ v, t.literal? = some (.ok v) → P v)
    (harray : ∀ stack v, m.mode = .array stack →
      ArrayLiteral.step m.frames.length limit stack t = .ok (.finished v) → P v)
    (hframe : ∀ f rest v, m.mode = .operand → m.frames = f :: rest → f.result = .ok v → P v) : m'.AllValues P := by
  cases hs with
  | blank _ => exact h
  | @enter callee _ _ _ =>
    have hnew : (Frame.new callee m.scope).AllValues P := ⟨(fun _ hv => nomatch hv), h.scope⟩
    exact ⟨h.values, List.forall_mem_cons.2 ⟨hnew, h.frames⟩, h.scope⟩
  | item _ _ _ => exact ⟨h.values, h.frames, h.scope⟩
  | @closeArray stack v hm _ hstep =>
    exact receive (m := { m with mode := .operand }) ⟨h.values, h.frames, h.scope⟩ (harray stack v hm hstep)
  | @takeName f rest _ hf _ _ =>
    obtain ⟨hframe, hrest⟩ := h.of_frame hf
    exact ⟨h.values, List.forall_mem_cons.2 ⟨⟨hframe.args, hframe.outerScope⟩, hrest⟩, h.scope⟩
  | openParen _ _ _ _ => exact ⟨h.values, h.frames, h.scope⟩
  | openBracket _ _ _ _ => exact ⟨h.values, h.frames, h.scope⟩
  | name _ _ _ hv => exact h.receive (h.lookup hv)
  | literal _ _ hv => exact h.receive (hliteral _ hv)
  | @close f rest v hm _ hf hv =>
    -- the frame goes, and the scope that it returns to is one whose values it has held
    obtain ⟨hclosing, hrest⟩ := h.of_frame hf
    exact receive (m := { m with frames := rest, scope := f.outerScope }) ⟨h.values, hrest, hclosing.outerScope⟩
      (hframe f rest v hm hf hv)

end AllValues

/-- The machine holds printable values only, in arrays that are still being read as well. -/
structure Printable (limit : Nat) (m : Machine) : Prop where
  all : m.AllValues (Value.Printable limit)
  lists : ∀ stack, m.mode = .array stack → OpenLists limit stack

/-- The lists that are open after a token were open before it, or the token has been read into them. -/
theorem openLists_of_step {registry : Registry} {limit : Nat} {m m' : Machine} {t : Token}
    (h : ∀ stack, m.mode = .array stack → OpenLists limit stack)
    (hne : ∀ stack, m.mode = .array stack → stack ≠ [])
    (hlit : ∀ v, t.literal? = some (.ok v) → v.Readable ∧ v.nesting = 0) (hs : Step registry limit m t m') :
    ∀ stack, m'.mode = .array stack → OpenLists limit stack := by
  intro stack hstack
  cases hs with
  | blank _ => exact h stack hstack
  | enter _ _ _ => cases hstack
  | @item before _ hm _ hstep =>
    cases hstack
    exact (h before hm).step (hne before hm) hlit hstep
  | closeArray _ _ _ =>
    rw [mode_receive] at hstack
    cases hstack
  | takeName _ _ _ _ => exact h stack hstack
  | openParen _ _ _ _ => cases hstack
  | openBracket _ _ _ hroom =>
    cases hstack
    exact .cons .nil (Nat.zero_lt_of_lt hroom) (by simp)
  | name _ _ _ _ | literal _ _ _ | close _ _ _ _ =>
    rw [mode_receive] at hstack
    exact h stack hstack

/-- A machine that has read literals of a source holds printable values. -/
theorem printable_of_run {limit : Nat} {ts : List Token} {m : Machine}
    (hts : ∀ t ∈ ts, ∀ v, t.literal? = some (.ok v) → v.Readable ∧ v.nesting = 0)
    (h : (run Standard.registry limit .start ts).result = .ok m) : m.Printable limit := by
  revert hts
  refine reached_induction_of_run (P := fun ts m =>
    (∀ t ∈ ts, ∀ v, t.literal? = some (.ok v) → v.Readable ∧ v.nesting = 0) → m.Printable limit) ?_ ?_ h
  · exact fun _ => ⟨.start, fun _ hstack => nomatch hstack⟩
  · intro ts m t m' hrun ih hs hts
    obtain ⟨hbefore, hlit⟩ := List.forall_mem_append.1 hts
    rw [List.forall_mem_singleton] at hlit
    have hm := ih hbefore
    have hne := (balanced_of_run hrun).stack_ne_nil
    refine ⟨hm.all.step hs ?_ ?_ ?_, openLists_of_step hm.lists hne hlit hs⟩
    · intro v hv
      obtain ⟨hreadable, hnesting⟩ := hlit v hv
      exact hreadable.printable (by omega)
    · intro stack v hmode hstep
      obtain ⟨hreadable, hnesting⟩ := (hm.lists stack hmode).step (hne stack hmode) hlit hstep
      exact hreadable.printable hnesting
    · intro f rest v hmode hf hv
      have hargs := (hm.all.of_frame hf).1.args
      exact Frame.holds_of_result (Standard.preserves_printable limit) (resolved_of_run hrun hmode hf) hargs hv

theorem mem_values_of_outcome {m : Machine} {v : Value} (h : m.outcome = .ok v) : v ∈ m.values := by
  rcases m.outcome_cases with ⟨-, -, ho⟩ | ho | ⟨depth, ho⟩
  · rw [ho] at h
    split at h
    · cases h
    · rename_i hvalues
      cases h
      rw [hvalues]
      exact List.mem_singleton_self v
    · cases h
  · rw [ho] at h
    cases h
  · rw [ho] at h
    cases h

end Machine

theorem Interpreter.tokenize_of_evaluate {i : Interpreter} {source : String} {v : Value}
    (h : i.evaluate source = .ok v) : ∃ ts, i.tokenize source = .ok ts ∧ i.runTokens ts = .ok v := by
  rw [i.evaluate_eq_bind] at h
  exact bind_eq_ok_iff.1 h

/-- Every result of a source is printable, and so is whatever a machine holds at any point of reading it: the arguments
in its frames, the values bound in its scope and in the scopes to return to, and the results so far. -/
theorem printable_of_evaluate (config : Config) (source : String) :
    (∀ v, Interpreter.evaluate { config := config } source = .ok v → v.Printable config.limit.toNat) ∧
      ∀ ts, Lexer.tokenize Rule.standard source = .ok ts → ∀ us, us <+: ts → ∀ m,
        (Machine.run Standard.registry config.limit.toNat .start us).result = .ok m →
          m.AllValues (Value.Printable config.limit.toNat) := by
  have hreached : ∀ ts, Lexer.tokenize Rule.standard source = .ok ts → ∀ us, us <+: ts → ∀ m,
      (Machine.run Standard.registry config.limit.toNat .start us).result = .ok m →
        m.AllValues (Value.Printable config.limit.toNat) := by
    intro ts hts us hus m hm
    refine (Machine.printable_of_run ?_ hm).all
    intro t ht v hv
    obtain ⟨before, rest, hshape⟩ := Lexer.shape_of_mem_tokenize hts (hus.subset ht)
    exact Token.readable_of_shape hshape hv
  refine ⟨?_, hreached⟩
  intro v hv
  obtain ⟨ts, hts, hrun⟩ := Interpreter.tokenize_of_evaluate hv
  rw [Interpreter.runTokens_eq] at hrun
  obtain ⟨m, hm, hout⟩ := bind_eq_ok_iff.1 hrun
  exact (hreached ts hts ts (List.prefix_refl ts) m hm).values v (Machine.mem_values_of_outcome hout)

private theorem wellFormed_quoted : Lexer.WellFormed .string "\"a\"".toList :=
  @Lexer.WellFormed.string ['a'] (by simp)

private def sharing : List Lexer.Piece :=
  [⟨.openParen, "(", .nothing, .openParen⟩, ⟨.identifier, "def", .space, Lexer.wellFormed_def⟩,
    ⟨.identifier, "x", .space, Lexer.wellFormed_x⟩, ⟨.openBracket, "[", .nothing, .openBracket⟩,
    ⟨.openBracket, "[", .nothing, .openBracket⟩, ⟨.int, "1", .nothing, Lexer.wellFormed_one⟩,
    ⟨.closeBracket, "]", .nothing, .closeBracket⟩, ⟨.string, "\"a\"", .nothing, wellFormed_quoted⟩,
    ⟨.closeBracket, "]", .nothing, .closeBracket⟩, ⟨.identifier, "x", .nothing, Lexer.wellFormed_x⟩,
    ⟨.closeParen, ")", .nothing, .closeParen⟩]

private def shared : Value := .array [.array [.int 1], .str "a"]

/-- An array two deep, which is bound to a variable and then the result, with no bracket to spare. -/
theorem printable_of_sharing : Lexer.Piece.write sharing = "(def x [[1]\"a\"]x)" ∧
    Interpreter.evaluate { config := ⟨3⟩ } (Lexer.Piece.write sharing) = .ok shared ∧ shared.Printable 3 ∧
    ∃ m, (Machine.run Standard.registry 3 .start ((Lexer.Piece.tokens 0 sharing).take 11)).result = .ok m ∧
      m.scope.bindings = [("x", shared)] ∧ m.AllValues (Value.Printable 3) := by
  have htokens : Lexer.tokenize Rule.standard (Lexer.Piece.write sharing) = .ok (Lexer.Piece.tokens 0 sharing) := by
    refine Lexer.Lexes.tokenize_eq (Lexer.Piece.lexes_write ?_ fun _ _ _ => rfl)
    simp [sharing, Lexer.Piece.Separated, Lexer.isWordy, Lexer.Blanks.space]
  have hvalue : Interpreter.evaluate { config := ⟨3⟩ } (Lexer.Piece.write sharing) = .ok shared :=
    (Interpreter.evaluate_eq { config := ⟨3⟩ } htokens).trans rfl
  obtain ⟨hresult, hreached⟩ := printable_of_evaluate ⟨3⟩ (Lexer.Piece.write sharing)
  refine ⟨by decide, hvalue, hresult shared hvalue, _, rfl, rfl, ?_⟩
  exact hreached _ htokens _ (List.take_prefix 11 _) _ rfl

end SinglePass
