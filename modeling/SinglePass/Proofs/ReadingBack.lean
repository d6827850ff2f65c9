import SinglePass.Proofs.Numerals
import SinglePass.Proofs.TreeEvaluation

/-!
# Values read back from their text

The text of a value is an expression of the language again, unless there is a negative or infinite number, a NaN or a
quote inside a string in it (`Value.Readable`).  A value that is no array is written as one token, which denotes it
(`Value.Literal`).  The items of an array stand apart by blanks, so none of them runs into the next one, and the array
is read item by item (`Value.reads_items`).

What is read is a datum that has the value, as far as there is room for its brackets (`Datum.Denotes`).  So the
evaluation of the text gives the value, and fails only where the brackets are nested deeper than the limit.
-/

namespace SinglePass

open Lexer

namespace Value

/-- The values whose text is an expression of the language: no number in them is negative, infinite or a NaN, and no
string holds a quote. -/
inductive Readable : Value → Prop
  | int {n : Int64} : 0 ≤ n.toInt → Readable (.int n)
  | float {x : Binary64} : x.isFinite = true → x.negative = false → Readable (.float x)
  | str {s : String} : (∀ c ∈ s.toList, c ≠ '"') → Readable (.str s)
  | bool (b : Bool) : Readable (.bool b)
  | array {items : List Value} : (∀ v ∈ items, Readable v) → Readable (.array items)

mutual

/-- The greatest number of brackets around a place in a value. -/
def nesting : Value → Nat
  | .array items => nestingAll items + 1
  | _ => 0

def nestingAll : List Value → Nat
  | [] => 0
  | v :: rest => max v.nesting (nestingAll rest)

end

end Value

/-! ### Literals -/

theorem Token.unquote_quoted (body : List Char) : Token.unquote ('"' :: (body ++ ['"'])) = body := by
  simp [Token.unquote]

/-- A value that is written as one token. -/
structure Value.Literal (v : Value) (kind : Token.Kind) : Prop where
  isLiteral : kind.isLiteral = true
  wellFormed : WellFormed kind v.display.toList
  literal? : ∀ offset, (Token.mk kind v.display offset).literal? = some (.ok v)
  nesting : v.nesting = 0

namespace Value

theorem literal_int {n : Int64} (h : 0 ≤ n.toInt) : Literal (.int n) .int := by
  obtain ⟨k, hk⟩ := Int.eq_ofNat_of_zero_le h
  refine ⟨rfl, ?_, ?_, rfl⟩
  · rw [display, String.toList_ofList, hk]
    exact .int (Decimal.digits_ne_nil k) fun c hc => Decimal.isDigit_of_mem_digits hc
  · intro offset
    simp only [Token.literal?, display, readInt?_ofInt h]

theorem literal_float {x : Binary64} (hx : x.isFinite = true) (hs : x.negative = false) :
    Literal (.float x) .float := by
  obtain ⟨d, hd, -⟩ := Binary64.pointed_withPoint hx hs
  refine ⟨rfl, ?_, ?_, rfl⟩
  · rw [display, String.toList_ofList]
    exact hd.wellFormed
  · intro offset
    simp only [Token.literal?, display, readFloat?_withPoint hx hs]

theorem literal_str {s : String} (h : ∀ c ∈ s.toList, c ≠ '"') : Literal (.str s) .string := by
  have htext : (Value.str s).display.toList = '"' :: (s.toList ++ ['"']) := by
    simp [display]
  refine ⟨rfl, ?_, ?_, rfl⟩
  · rw [htext]
    exact .string h
  · intro offset
    simp only [Token.literal?, htext, Token.unquote_quoted, String.ofList_toList]

theorem literal_bool (b : Bool) : Literal (.bool b) .bool := by
  cases b with
  | false => exact ⟨rfl, .bool (by simp [display, words]), fun offset => rfl, rfl⟩
  | true => exact ⟨rfl, .bool (by simp [display, words]), fun offset => rfl, rfl⟩

end Value

/-! ### Data that denote values -/

namespace Datum

/-- The datum has the value, as far as there is room for its brackets. -/
def Denotes (d : Datum) (v : Value) : Prop := ∀ limit depth, depth ≤ limit →
  d.eval limit depth = if depth + v.nesting ≤ limit then .ok v else .error (.tooDeep limit)

def DenoteAll (ds : List Datum) (vs : List Value) : Prop := ∀ limit depth, depth ≤ limit →
  evalAll limit depth ds = if depth + Value.nestingAll vs ≤ limit then .ok vs else .error (.tooDeep limit)

theorem denotes_literal {v : Value} {kind : Token.Kind} (h : v.Literal kind) (offset : Nat) :
    (literal ⟨kind, v.display, offset⟩).Denotes v := by
  intro limit depth hle
  rw [eval, h.literal? offset, h.nesting, Nat.add_zero, if_pos hle]
  rfl

theorem denoteAll_nil : DenoteAll [] [] := by
  intro limit depth hle
  rw [evalAll, Value.nestingAll, Nat.add_zero, if_pos hle]

theorem denoteAll_cons {d : Datum} {ds : List Datum} {v : Value} {vs : List Value} (hd : d.Denotes v)
    (hds : DenoteAll ds vs) : DenoteAll (d :: ds) (v :: vs) := by
  intro limit depth hle
  rw [evalAll, hd limit depth hle, hds limit depth hle, Value.nestingAll]
  by_cases hv : depth + v.nesting ≤ limit
  · by_cases hvs : depth + Value.nestingAll vs ≤ limit
    · rw [if_pos hv, if_pos hvs, if_pos (by omega)]
      rfl
    · rw [if_pos hv, if_neg hvs, if_neg (by omega)]
      rfl
  · rw [if_neg hv, error_bind, if_neg (by omega)]

theorem denotes_array {ds : List Datum} {vs : List Value} (h : DenoteAll ds vs) : (array ds).Denotes (.array vs) := by
  intro limit depth hle
  rw [eval, Value.nesting]
  by_cases hroom : depth < limit
  · rw [Machine.requireRoom_of_lt hroom, ok_bind, h limit (depth + 1) hroom, Nat.add_right_comm, Nat.add_assoc]
    split <;> rfl
  · rw [requireRoom, if_pos (by omega), if_neg (by omega)]
    rfl

end Datum

/-! ### Texts of values -/

theorem Lexer.Blanks.lexemes_tokens (b : Blanks) (offset : Nat) :
    (b.tokens offset).filterMap Token.lexeme? = [] := by
  rw [Blanks.tokens]
  split <;> rfl

namespace Value

/-- Wherever the text of the value can stand by itself, it is read as a datum that denotes the value. -/
structure ReadsBack (v : Value) : Prop where
  isBlank_head : ∀ rest, ∀ c ∈ (v.display.toList ++ rest).head?, Text.isBlank c = false
  reads : ∀ offset (before : Option Char) rest, before.any Text.isWordChar = false → EndsWord rest →
    ∃ ts d, Lexes offset before v.display.toList rest ts ∧ ts.filterMap Token.lexeme? = Datum.lexemes d ∧ d.Denotes v

theorem Literal.readsBack {v : Value} {kind : Token.Kind} (h : v.Literal kind) : v.ReadsBack := by
  refine ⟨fun rest => h.wellFormed.isBlank_head, ?_⟩
  intro offset before rest hbefore hafter
  have hlexeme : (Token.mk kind v.display offset).lexeme? = some (.literal ⟨kind, v.display, offset⟩) :=
    Machine.lexeme?_eq_some_iff.2 ⟨h.isLiteral, rfl⟩
  refine ⟨[⟨kind, v.display, offset⟩], .literal ⟨kind, v.display, offset⟩,
    h.wellFormed.lexes (fun _ => hbefore) fun _ => hafter, ?_, Datum.denotes_literal h offset⟩
  rw [List.filterMap_cons_some hlexeme]
  rfl

theorem displayItems_cons (v : Value) (vs : List Value) :
    ∃ more, (displayItems (v :: vs)).toList = v.display.toList ++ more := by
  cases vs with
  | nil => exact ⟨[], by rw [displayItems, List.append_nil]⟩
  | cons w vs =>
    rw [displayItems, String.toList_append, String.toList_append, List.append_assoc]
    · exact ⟨_, rfl⟩
    · simp

theorem reads_items {items : List Value} (h : ∀ v ∈ items, v.ReadsBack) (offset : Nat) {before : Option Char}
    {rest : List Char} (hbefore : before.any Text.isWordChar = false) (hafter : EndsWord rest) :
    ∃ ts ds, Lexes offset before (displayItems items).toList rest ts ∧
      ts.filterMap Token.lexeme? = Datum.lexemesAll ds ∧ Datum.DenoteAll ds items := by
  induction items generalizing offset before with
  | nil => exact ⟨[], [], .nil, rfl, Datum.denoteAll_nil⟩
  | cons v items ih =>
    have hv := h v List.mem_cons_self
    have hitems : ∀ w ∈ items, w.ReadsBack := fun w hw => h w (List.mem_cons_of_mem _ hw)
    cases items with
    | nil =>
      obtain ⟨ts, d, hlexes, hlexemes, hd⟩ := hv.reads offset before rest hbefore hafter
      refine ⟨ts, [d], hlexes, ?_, Datum.denoteAll_cons hd Datum.denoteAll_nil⟩
      rw [hlexemes, Datum.lexemesAll, Datum.lexemesAll, List.append_nil]
    | cons w items =>
      have htext : (displayItems (v :: w :: items)).toList =
          v.display.toList ++ (Blanks.space.text.toList ++ (displayItems (w :: items)).toList) := by
        rw [displayItems, String.toList_append, String.toList_append, List.append_assoc]
        · rfl
        · simp
      have hends : EndsWord (Blanks.space.text.toList ++ (displayItems (w :: items)).toList ++ rest) := by
        rw [List.append_assoc]
        exact Blanks.endsWord Blanks.space_ne_empty
      obtain ⟨ts, d, hlexes, hlexemes, hd⟩ := hv.reads offset before _ hbefore hends
      have hhead : ∀ c ∈ ((displayItems (w :: items)).toList ++ rest).head?, Text.isBlank c = false := by
        obtain ⟨more, hmore⟩ := displayItems_cons w items
        rw [hmore, List.append_assoc]
        exact (hitems w List.mem_cons_self).isBlank_head _
      obtain ⟨ts', ds, hlexes', hlexemes', hds⟩ := ih hitems
        (offset + byteSize v.display.toList + byteSize Blanks.space.text.toList)
        (Blanks.isWordChar_getLast? Blanks.space_ne_empty)
      refine ⟨_, d :: ds, htext ▸ hlexes.append ((Blanks.lexes hhead).append hlexes'), ?_,
        Datum.denoteAll_cons hd hds⟩
      rw [List.filterMap_append, List.filterMap_append, hlexemes, Blanks.lexemes_tokens, hlexemes', List.nil_append,
        Datum.lexemesAll]

theorem readsBack_array {items : List Value} (h : ∀ v ∈ items, v.ReadsBack) : (Value.array items).ReadsBack := by
  have htext : (Value.array items).display.toList = "[".toList ++ ((displayItems items).toList ++ "]".toList) := by
    rw [display, String.toList_append, String.toList_append, List.append_assoc]
  have hopen : WellFormed .openBracket "[".toList := .openBracket
  have hclose : WellFormed .closeBracket "]".toList := .closeBracket
  refine ⟨fun rest => ?_, fun offset before rest _ _ => ?_⟩
  · rw [htext, List.append_assoc]
    exact hopen.isBlank_head
  · obtain ⟨ts, ds, hlexes, hlexemes, hds⟩ := reads_items h (offset + byteSize "[".toList)
      (hopen.marks rfl before rest).2 (hclose.marks rfl before rest).1
    refine ⟨_, .array ds, htext ▸ (hopen.lexes nofun nofun).append (hlexes.append (hclose.lexes nofun nofun)), ?_,
      Datum.denotes_array hds⟩
    rw [List.filterMap_append, List.filterMap_append, hlexemes, Datum.lexemes]
    rfl

theorem Readable.readsBack {v : Value} (h : v.Readable) : v.ReadsBack := by
  induction h with
  | int h => exact (literal_int h).readsBack
  | float hx hs => exact (literal_float hx hs).readsBack
  | str h => exact (literal_str h).readsBack
  | bool b => exact (literal_bool b).readsBack
  | array _ ih => exact readsBack_array ih

end Value

/-- The text of a value is an expression with that value: without negative or infinite numbers, NaNs and quotes inside
strings, and as long as there is room for its brackets, every value is read back from its text. -/
theorem evaluate_display (i : Interpreter) (hrules : i.rules = Rule.standard) {v : Value} (hv : v.Readable) :
    i.evaluate v.display =
      if v.nesting ≤ i.config.limit.toNat then .ok v else .error (.tooDeep i.config.limit.toNat) := by
  obtain ⟨ts, d, hlexes, hlexemes, hd⟩ := hv.readsBack.reads 0 none [] rfl .nil
  have htokens : i.tokenize v.display = .ok ts := by
    rw [Interpreter.tokenize, hrules]
    exact hlexes.tokenize_eq
  have htrees : ts.filterMap Token.lexeme? = Expr.lexemesAll [.datum d] := by
    rw [hlexemes, Expr.lexemesAll, Expr.lexemesAll, Expr.lexemes, List.append_nil]
  have hgrammatical : ∀ e ∈ [Expr.datum d], e.Grammatical := by
    simpa using .datum d
  rw [i.evaluate_eq htokens, runTokens_of_trees i hgrammatical htrees, Expr.evalAll, Expr.evalAll, Expr.eval,
    hd _ 0 (Nat.zero_le _), Nat.zero_add]
  split <;> rfl

private def mixedArray : Value :=
  .array [.int 7, .float ⟨0x3FB999999999999A⟩, .float ⟨0x3FF0000000000000⟩, .str "a [1", .array [.bool true, .array []]]

/-- The tenth and the one are doubles and the seven is an integer, in an array that is three deep. -/
theorem evaluate_display_mixedArray : mixedArray.Readable ∧ mixedArray.nesting = 3 ∧
    mixedArray.display = "[7 0.1 1.0 \"a [1\" [true []]]" ∧
    Interpreter.evaluate { config := ⟨3⟩ } mixedArray.display = .ok mixedArray ∧
    Interpreter.evaluate { config := ⟨2⟩ } mixedArray.display = .error (.tooDeep 2) := by
  have hreadable : mixedArray.Readable := by
    refine .array ?_
    simp only [List.forall_mem_cons, List.not_mem_nil, false_implies, implies_true, and_true]
    refine ⟨.int (by decide), .float (by decide) (by decide), .float (by decide) (by decide), .str (by simp), .array ?_⟩
    simp only [List.forall_mem_cons, List.not_mem_nil, false_implies, implies_true, and_true]
    exact ⟨.bool true, .array (by simp)⟩
  have hnesting : mixedArray.nesting = 3 := rfl
  refine ⟨hreadable, hnesting, by decide +kernel, ?_, ?_⟩
  · exact evaluate_display { config := ⟨3⟩ } rfl hreadable
  · exact evaluate_display { config := ⟨2⟩ } rfl hreadable

end SinglePass
