import SinglePass.Json.Reader
import SinglePass.Json.Writer
import SinglePass.Proofs.Numerals

/-!
# Reading JSON texts

The text of a document is read as the document (`Json.WellFormed.parse?_text`), if nothing in it is unreadable and its
numbers are made of digits as JSON demands (`Json.WellFormed`).

Nothing marks the end of a number, so a document is read back only in front of something that does not go on with the
number (`EndsNumber`).  A reader of documents makes two calls for every bracket or comma that it reads, at most, so that
twice the length of the text is enough (`Reads`).
-/

namespace SinglePass.Json

/-! ### Strings -/

theorem hexDigit?_hexChar : ∀ n < 16, hexDigit? (hexChar n) = some n := by decide

theorem hexValue?_hexChars {n : Nat} (h : n < 256) :
    hexValue? ['0', '0', hexChar (n / 16), hexChar (n % 16)] = some n := by
  have hhigh : hexDigit? (hexChar (n / 16)) = some (n / 16) := hexDigit?_hexChar _ (by omega)
  have hlow : hexDigit? (hexChar (n % 16)) = some (n % 16) := hexDigit?_hexChar _ (by omega)
  have hzero : hexDigit? '0' = some 0 := rfl
  have hdigits : hexValue? ['0', '0', hexChar (n / 16), hexChar (n % 16)] = some (16 * (n / 16) + n % 16) := by
    simp [hexValue?, hzero, hhigh, hlow]
  rw [hdigits, Nat.div_add_mod]

/-- A letter behind a backslash stands for one character. -/
theorem readPieces_backslash {letter c : Char} {cs : List Char} (hletter : letter ≠ 'u')
    (hc : escaped? letter = some c) :
    readPieces ('\\' :: letter :: cs) = (readPieces cs).map fun p => (.char c :: p.1, p.2) := by
  rw [readPieces.eq_4 letter cs fun _ _ _ _ _ hu _ => hletter hu, hc]
  cases readPieces cs <;> rfl

/-- A character is read back from its text in a string. -/
theorem readPieces_escape (c : Char) (cs : List Char) :
    readPieces (escape c ++ cs) = (readPieces cs).map fun p => (.char c :: p.1, p.2) := by
  unfold escape
  split_ifs with hquote hslash hb ht hn hf hr hcontrol
  · exact readPieces_backslash (by decide) (by rw [hquote]; rfl)
  · exact readPieces_backslash (by decide) (by rw [hslash]; rfl)
  · exact readPieces_backslash (by decide) (by rw [hb]; rfl)
  · exact readPieces_backslash (by decide) (by rw [ht]; rfl)
  · exact readPieces_backslash (by decide) (by rw [hn]; rfl)
  · exact readPieces_backslash (by decide) (by rw [hf]; rfl)
  · exact readPieces_backslash (by decide) (by rw [hr]; rfl)
  · -- the other control characters are written by their numbers, none of which is half of a surrogate pair
    have hlt : c.toNat < 32 := hcontrol
    have hunit : Piece.ofUnit c.toNat = .char c := by
      rw [Piece.ofUnit, if_neg (by omega), Char.ofNat_toNat]
    simp only [List.cons_append, List.nil_append]
    rw [readPieces, hexValue?_hexChars (by omega), Option.bind_eq_bind, Option.bind_some, hunit]
    cases readPieces cs <;> rfl
  · rw [List.singleton_append, readPieces.eq_5 c cs hquote (fun _ _ _ _ _ h _ => hslash h) fun _ _ h _ => hslash h]
    rw [if_neg (by simp [hslash, hcontrol])]
    cases readPieces cs <;> rfl

theorem readPieces_quote (cs rest : List Char) :
    readPieces (cs.flatMap escape ++ '"' :: rest) = some (cs.map .char, rest) := by
  induction cs with
  | nil => rfl
  | cons c cs ih =>
    rw [List.flatMap_cons, List.append_assoc, readPieces_escape, ih]
    rfl

theorem join?_chars (cs : List Char) : join? (cs.map .char) = some cs := by
  induction cs with
  | nil => rfl
  | cons c cs ih =>
    rw [List.map_cons, join?, ih]
    rfl

theorem readString_quote (s : String) (rest : List Char) :
    readString (s.toList.flatMap escape ++ '"' :: rest) = some (some s, rest) := by
  simp only [readString, readPieces_quote, Option.map_some, join?_chars, String.ofList_toList]

/-! ### Numbers -/

/-- What follows does not go on with a number. -/
def EndsNumber (rest : List Char) : Prop :=
  ∀ c ∈ rest.head?, c.isDigit = false ∧ c ≠ '.' ∧ c ≠ 'e' ∧ c ≠ 'E'

theorem endsNumber_nil : EndsNumber [] := by simp [EndsNumber]

theorem endsNumber_comma (rest : List Char) : EndsNumber (',' :: rest) := by simp [EndsNumber]

theorem endsNumber_bracket (rest : List Char) : EndsNumber (']' :: rest) := by simp [EndsNumber]

theorem endsNumber_brace (rest : List Char) : EndsNumber ('\x7d' :: rest) := by simp [EndsNumber]

/-- One or more digits, a fraction or none, and an exponent or none.  A zero in front stands alone. -/
structure Number.WellFormed (n : Number) : Prop where
  whole_ne_nil : n.whole ≠ []
  whole_isDigit : ∀ c ∈ n.whole, c.isDigit = true
  whole_zero : ∀ ds, n.whole = '0' :: ds → ds = []
  fraction_isDigit : ∀ c ∈ n.fraction, c.isDigit = true
  exponent_ne_nil : ∀ negative ds, n.exponent = some (negative, ds) → ds ≠ []
  exponent_isDigit : ∀ negative ds, n.exponent = some (negative, ds) → ∀ c ∈ ds, c.isDigit = true

namespace Number

/-- The fraction with its point, if there is one. -/
def fractionText (n : Number) : List Char := if n.fraction = [] then [] else '.' :: n.fraction

/-- The exponent with its letter and sign, if there is one. -/
def exponentText (n : Number) : List Char :=
  match n.exponent with
  | none => []
  | some (negative, ds) => 'e' :: (if negative then '-' else '+') :: ds

theorem render_eq (n : Number) :
    n.render = (if n.negative then ['-'] else []) ++ (n.whole ++ (n.fractionText ++ n.exponentText)) := by
  simp only [render, List.append_assoc]
  rfl

namespace WellFormed

variable {n : Number} {rest : List Char}

/-! What follows each part of a number does not go on with that part. -/

theorem head_exponentText (hrest : EndsNumber rest) :
    ∀ c ∈ (n.exponentText ++ rest).head?, c.isDigit = false ∧ c ≠ '.' := by
  unfold exponentText
  split
  · exact fun c hc => ⟨(hrest c hc).1, (hrest c hc).2.1⟩
  · simp

theorem head_fractionText (hrest : EndsNumber rest) :
    ∀ c ∈ (n.fractionText ++ (n.exponentText ++ rest)).head?, c.isDigit = false := by
  unfold fractionText
  split_ifs
  · exact fun c hc => (head_exponentText hrest c hc).1
  · simp

theorem readExponent_text (h : n.WellFormed) (hrest : EndsNumber rest) :
    readExponent (n.exponentText ++ rest) = some (n.exponent, rest) := by
  unfold exponentText
  cases he : n.exponent with
  | none =>
    cases rest with
    | nil => rfl
    | cons c rest =>
      obtain ⟨-, -, hlower, hupper⟩ := hrest c rfl
      simp [readExponent, hlower, hupper]
  | some e =>
    obtain ⟨negative, ds⟩ := e
    have hsign : Decimal.splitSign ((if negative then '-' else '+') :: (ds ++ rest)) = (negative, ds ++ rest) := by
      cases negative <;> rfl
    have hdigits := h.exponent_isDigit negative ds he
    have hstop : ∀ c ∈ rest.head?, c.isDigit = false := fun c hc => (hrest c hc).1
    have hne : ds ≠ [] := h.exponent_ne_nil negative ds he
    simp only [List.cons_append, readExponent, hsign, readExponentDigits,
      takeWhile_append_of_ends hdigits hstop, dropWhile_append_of_ends hdigits hstop]
    rfl

theorem readFraction_text (h : n.WellFormed) (hrest : EndsNumber rest) :
    readFraction (n.fractionText ++ (n.exponentText ++ rest)) = some (n.fraction, n.exponentText ++ rest) := by
  have hstop := head_exponentText (n := n) hrest
  unfold fractionText
  generalize n.exponentText ++ rest = rest' at hstop
  split_ifs with hnil
  · rw [hnil, List.nil_append]
    unfold readFraction
    split
    · exact absurd rfl (hstop '.' rfl).2
    · rfl
  · have hdigits := h.fraction_isDigit
    have hstop' : ∀ c ∈ rest'.head?, c.isDigit = false := fun c hc => (hstop c hc).1
    simp only [List.cons_append, readFraction, takeWhile_append_of_ends hdigits hstop',
      dropWhile_append_of_ends hdigits hstop']

theorem readWhole_append (h : n.WellFormed) (hrest : ∀ c ∈ rest.head?, c.isDigit = false) :
    readWhole (n.whole ++ rest) = some (n.whole, rest) := by
  obtain ⟨d, ds, hds⟩ := List.exists_cons_of_ne_nil h.whole_ne_nil
  have htake := takeWhile_append_of_ends h.whole_isDigit hrest
  have hdrop := dropWhile_append_of_ends h.whole_isDigit hrest
  unfold readWhole
  split
  · rename_i cs hcs
    rw [hds, List.cons_append, List.cons.injEq] at hcs
    obtain ⟨rfl, rfl⟩ := hcs
    rw [hds, h.whole_zero ds hds, List.nil_append]
  · have hne := h.whole_ne_nil
    simp only [htake, hdrop]

/-- A number is read back from its text, in front of anything that does not go on with it. -/
theorem readNumber_render (h : n.WellFormed) (hrest : EndsNumber rest) :
    readNumber (n.render ++ rest) = some (n, rest) := by
  have hunsigned : readUnsigned n.negative (n.whole ++ (n.fractionText ++ (n.exponentText ++ rest)))
      = some (n, rest) := by
    simp [readUnsigned, h.readWhole_append (head_fractionText hrest), h.readFraction_text hrest,
      h.readExponent_text hrest]
  simp only [render_eq, List.append_assoc]
  cases hn : n.negative with
  | true => simpa [readNumber, hn] using hunsigned
  | false =>
    rw [hn] at hunsigned
    obtain ⟨d, ds, hds⟩ := List.exists_cons_of_ne_nil h.whole_ne_nil
    have hd : d.isDigit = true := h.whole_isDigit d (by simp [hds])
    simp only [Bool.false_eq_true, ↓reduceIte, List.nil_append]
    unfold readNumber
    split
    · rename_i cs hcs
      rw [hds, List.cons_append, List.cons.injEq] at hcs
      exact absurd (hcs.1 ▸ hd) (by decide)
    · exact hunsigned

/-- The text of a number begins with a sign or a digit. -/
theorem exists_render_eq_cons (h : n.WellFormed) : ∃ c cs, n.render = c :: cs ∧ (c = '-' ∨ c.isDigit = true) := by
  obtain ⟨d, ds, hds⟩ := List.exists_cons_of_ne_nil h.whole_ne_nil
  rw [render_eq]
  cases n.negative with
  | true => exact ⟨'-', _, rfl, .inl rfl⟩
  | false => exact ⟨d, _, by rw [hds]; rfl, .inr (h.whole_isDigit d (by simp [hds]))⟩

end WellFormed

end Number

/-! ### Documents -/

/-- Nothing in the document is unreadable, and its numbers are well-formed. -/
inductive WellFormed : Json → Prop
  | null : WellFormed null
  | bool (b : Bool) : WellFormed (bool b)
  | number {n : Number} : n.WellFormed → WellFormed (number n)
  | string (s : String) : WellFormed (string s)
  | array {items : List Json} : (∀ j ∈ items, WellFormed j) → WellFormed (array items)
  | object {members : List (String × Json)} : (∀ m ∈ members, WellFormed m.2) → WellFormed (object members)

/-- The text begins with neither a blank nor a closing bracket, so that it is not taken for the end of an array. -/
def StartsItem (text : List Char) : Prop := ∃ c cs, text = c :: cs ∧ isBlank c = false ∧ c ≠ ']'

/-- The document is read from its text with two calls for every character of it. -/
structure Reads (j : Json) : Prop where
  starts : StartsItem j.render
  readValue : ∀ calls rest, 2 * j.render.length ≤ calls → EndsNumber rest →
    readValue calls (j.render ++ rest) = some (j, rest)

theorem skipBlanks_cons {c : Char} (hc : isBlank c = false) (cs : List Char) : skipBlanks (c :: cs) = c :: cs :=
  List.dropWhile_cons_of_neg (by simp [hc])

/-- One call is always at hand, because no text is empty. -/
theorem Reads.of_readValue {j : Json} (hstarts : StartsItem j.render)
    (h : ∀ calls rest, 2 * j.render.length ≤ calls + 1 → EndsNumber rest →
      Json.readValue (calls + 1) (j.render ++ rest) = some (j, rest)) : Reads j := by
  refine ⟨hstarts, ?_⟩
  intro calls rest hcalls hrest
  cases calls with
  | zero =>
    obtain ⟨c, cs, hcs, -, -⟩ := hstarts
    simp [hcs] at hcalls
  | succ calls => exact h calls rest hcalls hrest

section

variable {items : List Json} {members : List (String × Json)} {calls : Nat}

theorem reads_null : Reads null :=
  .of_readValue ⟨'n', _, rfl, rfl, by decide⟩ fun _ _ _ _ => rfl

theorem reads_bool (b : Bool) : Reads (bool b) := by
  cases b with
  | true => exact .of_readValue ⟨'t', _, rfl, rfl, by decide⟩ fun _ _ _ _ => rfl
  | false => exact .of_readValue ⟨'f', _, rfl, rfl, by decide⟩ fun _ _ _ _ => rfl

/-- What begins with none of the characters in which the other documents begin is read as a number. -/
theorem readValue_of_notMem {c : Char} {cs : List Char} (hblank : isBlank c = false)
    (hc : c ∉ ['n', 't', 'f', '"', '[', '\x7b']) :
    readValue (calls + 1) (c :: cs) = (readNumber (c :: cs)).map fun p => (number p.1, p.2) := by
  simp only [List.mem_cons, List.not_mem_nil, or_false, not_or] at hc
  rw [readValue, skipBlanks_cons hblank]
  split <;> simp_all

theorem reads_number {n : Number} (h : n.WellFormed) : Reads (number n) := by
  obtain ⟨c, cs, hcs, hc⟩ := h.exists_render_eq_cons
  have hne : ∀ d, d.isDigit = false → d ≠ '-' → c ≠ d := by
    rintro d hdigit hminus rfl
    rcases hc with hc | hc
    · exact hminus hc
    · simp [hdigit] at hc
  have hblank : isBlank c = false := by
    simp [isBlank, hne ' ' rfl (by decide), hne '\t' rfl (by decide), hne '\n' rfl (by decide),
      hne '\r' rfl (by decide)]
  refine .of_readValue ⟨c, cs, hcs, hblank, hne ']' rfl (by decide)⟩ ?_
  intro calls rest hcalls hrest
  have hread := h.readNumber_render hrest
  rw [hcs, List.cons_append] at hread
  rw [render, hcs, List.cons_append, readValue_of_notMem hblank (by simp [hne]), hread]
  rfl

theorem reads_string (s : String) : Reads (string s) := by
  refine .of_readValue ⟨'"', _, rfl, rfl, by decide⟩ ?_
  intro calls rest hcalls hrest
  simp only [render, quote, List.cons_append, List.append_assoc, List.nil_append]
  rw [readValue, skipBlanks_cons rfl]
  simp [readString_quote]

theorem renderItems_cons {j : Json} (hne : items ≠ []) :
    renderItems (j :: items) = j.render ++ ',' :: renderItems items :=
  renderItems.eq_3 j items hne

theorem renderMembers_cons {key : String} {j : Json} (hne : members ≠ []) :
    renderMembers ((key, j) :: members) = quote key.toList ++ ':' :: j.render ++ ',' :: renderMembers members :=
  renderMembers.eq_3 key j members hne

theorem startsItem_renderItems {j : Json} (hj : Reads j) (items : List Json) :
    StartsItem (renderItems (j :: items)) := by
  obtain ⟨c, cs, hcs, hc⟩ := hj.starts
  cases items with
  | nil => exact ⟨c, cs, hcs, hc⟩
  | cons k items =>
    rw [renderItems_cons (List.cons_ne_nil k items), hcs]
    exact ⟨c, _, rfl, hc⟩

theorem exists_renderMembers_eq_cons (m : String × Json) (members : List (String × Json)) :
    ∃ cs, renderMembers (m :: members) = '"' :: cs := by
  cases members with
  | nil => exact ⟨_, rfl⟩
  | cons k members => exact ⟨_, rfl⟩

/-- Items that are read from their texts are read one after the other. -/
theorem readItems_render (hne : items ≠ []) (h : ∀ j ∈ items, Reads j) (calls : Nat) (rest : List Char)
    (hcalls : 2 * (renderItems items).length + 1 ≤ calls) :
    readItems calls (renderItems items ++ ']' :: rest) = some (items, rest) := by
  induction items generalizing calls with
  | nil => exact absurd rfl hne
  | cons j items ih =>
    have hj : Reads j := h j List.mem_cons_self
    -- this call pays for the comma or the bracket, so the item and the items behind it have theirs left
    obtain ⟨calls, rfl⟩ := Nat.exists_eq_add_of_le' (Nat.one_le_of_lt hcalls)
    by_cases hnil : items = []
    · rw [hnil, renderItems] at hcalls ⊢
      simp [readItems, hj.readValue calls _ (by omega) (endsNumber_bracket rest), skipBlanks_cons, isBlank]
    · rw [renderItems_cons hnil] at hcalls ⊢
      rw [List.length_append, List.length_cons] at hcalls
      have hitems := ih hnil (fun k hk => h k (List.mem_cons_of_mem j hk)) calls (by omega)
      rw [List.append_assoc, List.cons_append]
      simp [readItems, hj.readValue calls _ (by omega) (endsNumber_comma _), skipBlanks_cons, isBlank, hitems]

theorem readMembers_render (hne : members ≠ []) (h : ∀ m ∈ members, Reads m.2) (calls : Nat) (rest : List Char)
    (hcalls : 2 * (renderMembers members).length + 1 ≤ calls) :
    readMembers calls (renderMembers members ++ '\x7d' :: rest) =
      some (members.map fun m => (some m.1, m.2), rest) := by
  induction members generalizing calls with
  | nil => exact absurd rfl hne
  | cons m members ih =>
    obtain ⟨key, j⟩ := m
    have hj : Reads j := h (key, j) List.mem_cons_self
    obtain ⟨calls, rfl⟩ := Nat.exists_eq_add_of_le' (Nat.one_le_of_lt hcalls)
    by_cases hnil : members = []
    · rw [hnil, renderMembers] at hcalls ⊢
      rw [List.length_append, List.length_cons] at hcalls
      simp [readMembers, quote, skipBlanks_cons, isBlank, readString_quote,
        hj.readValue calls _ (by omega) (endsNumber_brace rest)]
    · rw [renderMembers_cons hnil] at hcalls ⊢
      rw [List.length_append, List.length_append, List.length_cons, List.length_cons] at hcalls
      have hmembers := ih hnil (fun k hk => h k (List.mem_cons_of_mem _ hk)) calls (by omega)
      simp [readMembers, quote, skipBlanks_cons, isBlank, readString_quote,
        hj.readValue calls _ (by omega) (endsNumber_comma _), hmembers]

theorem ofMembers_map_some (members : List (String × Json)) :
    ofMembers (members.map fun m => (some m.1, m.2)) = object members := by
  have hkeys : members.mapM (fun m => some (m.1, m.2)) = some members :=
    List.mapM_pure.trans (congrArg some (List.map_id members))
  simp only [ofMembers, List.mapM_map, Function.comp_def, Option.map_some, hkeys]

theorem reads_array (h : ∀ j ∈ items, Reads j) : Reads (array items) := by
  refine .of_readValue ⟨'[', _, rfl, rfl, by decide⟩ ?_
  intro calls rest hcalls hrest
  simp only [render, List.cons_append, List.append_assoc, List.nil_append, List.length_cons, List.length_append]
    at hcalls ⊢
  rw [readValue, skipBlanks_cons rfl]
  cases items with
  | nil => rfl
  | cons j items =>
    have hitems := readItems_render (List.cons_ne_nil j items) h calls rest (by omega)
    obtain ⟨c, cs, hcs, hblank, hclose⟩ := startsItem_renderItems (h j List.mem_cons_self) items
    rw [hcs, List.cons_append] at hitems ⊢
    simp [skipBlanks_cons hblank, hclose, hitems]

theorem reads_object (h : ∀ m ∈ members, Reads m.2) : Reads (object members) := by
  refine .of_readValue ⟨'\x7b', _, rfl, rfl, by decide⟩ ?_
  intro calls rest hcalls hrest
  simp only [render, List.cons_append, List.append_assoc, List.nil_append, List.length_cons, List.length_append]
    at hcalls ⊢
  rw [readValue, skipBlanks_cons rfl]
  cases members with
  | nil => rfl
  | cons m members =>
    have hmembers := readMembers_render (List.cons_ne_nil m members) h calls rest (by omega)
    obtain ⟨cs, hcs⟩ := exists_renderMembers_eq_cons m members
    rw [hcs, List.cons_append] at hmembers ⊢
    change (readMembers calls ('"' :: (cs ++ '\x7d' :: rest))).map _ = _
    simp only [hmembers, Option.map_some, ofMembers_map_some]

end

theorem WellFormed.reads {j : Json} (h : j.WellFormed) : Reads j := by
  induction h with
  | null => exact reads_null
  | bool b => exact reads_bool b
  | number hn => exact reads_number hn
  | string s => exact reads_string s
  | array _ ih => exact reads_array ih
  | object _ ih => exact reads_object ih

/-- Reading the text of a document gives the document. -/
theorem WellFormed.parse?_text {j : Json} (h : j.WellFormed) : parse? j.text = some j := by
  have hlength : j.text.length = j.render.length := by rw [text, String.length_ofList]
  have hread := h.reads.readValue (2 * j.text.length + 2) [] (by omega) endsNumber_nil
  rw [List.append_nil] at hread
  rw [parse?, show j.text.toList = j.render from String.toList_ofList, hread]
  rfl

end SinglePass.Json
