import SinglePass.Proofs.OnePass

/-!
# Tokens written as text

Tokens that are written one after another, with blanks around them as one likes, are read back as they were written,
each at the byte where it was written.  Only where a number, a boolean or a name meets another one does there have to be
a blank between them: what stands behind such a token is then no part of a word and no point (`EndsWord`), as is true of
all delimiters, quotes and blanks.

What the table does with a text follows from the shapes that it claims (`WellFormed.shape`).  Texts that are read by
themselves are read one after another (`Lexes.append`), so the whole follows one token at a time (`lexes_write`).
-/

namespace SinglePass

/-! ### Characters that are no part of a word -/

theorem isWordChar_of_isDigit {c : Char} (h : c.isDigit = true) : Text.isWordChar c = true := by
  rw [Text.isWordChar, Text.inRanges, List.any_eq_true]
  have hrange := isDigit_iff.1 h
  exact ⟨(0x30, 0x39), .head _, by simpa using hrange⟩

/-- Quotes and delimiters. -/
private def markRanges : List (Nat × Nat) := [(0x22, 0x29), (0x5B, 0x5D)]

private theorem ranges_apart : ((Text.blankRanges ++ markRanges).all fun b =>
    Text.wordRanges.all fun w => b.2 < w.1 || w.2 < b.1) = true := by
  decide +kernel

private theorem isWordChar_eq_false {c : Char} {b : Nat × Nat} (hb : b ∈ Text.blankRanges ++ markRanges)
    (hfirst : b.1 ≤ c.toNat) (hlast : c.toNat ≤ b.2) : Text.isWordChar c = false := by
  rw [← Bool.not_eq_true]
  intro hword
  obtain ⟨w, hw, hc⟩ := List.any_eq_true.1 hword
  have hapart := List.all_eq_true.1 (List.all_eq_true.1 ranges_apart b hb) w hw
  simp only [Bool.and_eq_true, Bool.or_eq_true, decide_eq_true_eq] at hc hapart
  omega

theorem isWordChar_of_isBlank {c : Char} (h : Text.isBlank c = true) : Text.isWordChar c = false := by
  obtain ⟨b, hb, hc⟩ := List.any_eq_true.1 h
  simp only [Bool.and_eq_true, decide_eq_true_eq] at hc
  exact isWordChar_eq_false (List.mem_append_left _ hb) hc.1 hc.2

private theorem isWordChar_of_mark {c : Char} (h : c ∈ ['"', '(', ')', '[', ']']) : Text.isWordChar c = false := by
  have hmark : ∀ c ∈ ['"', '(', ')', '[', ']'], ∃ b ∈ markRanges, b.1 ≤ c.toNat ∧ c.toNat ≤ b.2 := by
    simp [markRanges]
  obtain ⟨b, hb, hfirst, hlast⟩ := hmark c h
  exact isWordChar_eq_false (List.mem_append_right _ hb) hfirst hlast

namespace Lexer

/-! ### One text after another -/

/-- From a place on, the characters in front of `rest` are read as these tokens, whatever becomes of `rest`. -/
def Lexes (offset : Nat) (before : Option Char) (u rest : List Char) (ts : List Token) : Prop :=
  OnePass.tableFrom offset before (u ++ rest) =
    OnePass.tableFrom (offset + byteSize u) (u.getLast?.or before) rest >>= fun more => .ok (ts ++ more)

namespace Lexes

variable {offset : Nat} {before : Option Char} {u v rest : List Char} {ts ts' : List Token}

theorem nil : Lexes offset before [] rest [] := by
  unfold Lexes
  simp only [List.nil_append, byteSize, Nat.add_zero, List.getLast?_nil, Option.none_or]
  exact (bind_pure _).symm

theorem append (hu : Lexes offset before u (v ++ rest) ts)
    (hv : Lexes (offset + byteSize u) (u.getLast?.or before) v rest ts') :
    Lexes offset before (u ++ v) rest (ts ++ ts') := by
  unfold Lexes at hu hv ⊢
  rw [List.append_assoc, hu, hv, bind_assoc, byteSize_append, Nat.add_assoc, List.getLast?_append, Option.or_assoc]
  refine bind_congr fun more => ?_
  rw [List.append_assoc]
  rfl

theorem of_shape {kind : Token.Kind} {text : String} (h : OnePass.Shape before rest kind text.toList) :
    Lexes offset before text.toList rest [⟨kind, text, offset⟩] := by
  unfold Lexes
  rw [OnePass.tableFrom_of_shape h, List.getLast?_eq_some_getLast h.ne_nil, String.ofList_toList]
  rfl

theorem tokenize_eq {source : String} (h : Lexes 0 none source.toList [] ts) :
    Lexer.tokenize Rule.standard source = .ok ts := by
  unfold Lexes at h
  rw [List.append_nil, OnePass.tableFrom_nil] at h
  rw [OnePass.tokenize_eq_tableFrom]
  exact h.trans (congrArg Except.ok (List.append_nil ts))

end Lexes

/-! ### Well-formed tokens -/

/-- The texts that are written for tokens of a kind. -/
inductive WellFormed : Token.Kind → List Char → Prop
  | string {body : List Char} : (∀ c ∈ body, c ≠ '"') → WellFormed .string ('"' :: (body ++ ['"']))
  | int {u : List Char} : u ≠ [] → (∀ c ∈ u, c.isDigit = true) → WellFormed .int u
  | float {whole fraction : List Char} : (∀ c ∈ whole, c.isDigit = true) → (∀ c ∈ fraction, c.isDigit = true) →
      ¬(whole = [] ∧ fraction = []) → WellFormed .float (whole ++ '.' :: fraction)
  | bool {u : List Char} : u ∈ words → WellFormed .bool u
  | identifier {u : List Char} : u ≠ [] → (∀ c ∈ u, Pattern.isLetter c = true) → u ∉ words →
      WellFormed .identifier u
  | openParen : WellFormed .openParen ['(']
  | closeParen : WellFormed .closeParen [')']
  | openBracket : WellFormed .openBracket ['[']
  | closeBracket : WellFormed .closeBracket [']']

/-- The kinds that run into each other if nothing stands between them. -/
def isWordy : Token.Kind → Bool
  | .int | .float | .bool | .identifier => true
  | _ => false

/-- A word ends in front of these characters. -/
def EndsWord (v : List Char) : Prop := ∀ c ∈ v.head?, Text.isWordChar c = false ∧ c ≠ '.'

namespace EndsWord

variable {v : List Char}

theorem nil : EndsWord [] := by
  intro c hc
  cases hc

theorem cons {c : Char} (hw : Text.isWordChar c = false) (hp : c ≠ '.') : EndsWord (c :: v) := by
  intro d hd
  cases hd
  exact ⟨hw, hp⟩

theorem of_isBlank {c : Char} (h : Text.isBlank c = true) : EndsWord (c :: v) := by
  refine .cons (isWordChar_of_isBlank h) ?_
  rintro rfl
  have hrange := toNat_of_isBlank h
  have hpoint : '.'.toNat = 46 := rfl
  omega

theorem isDigit_eq_false (h : EndsWord v) : ∀ c ∈ v.head?, c.isDigit = false := by
  intro c hc
  rw [← Bool.not_eq_true]
  intro hd
  have hw := (h c hc).1
  rw [isWordChar_of_isDigit hd] at hw
  cases hw

theorem any_isWordChar (h : EndsWord v) : v.head?.any Text.isWordChar = false := by
  cases hv : v.head? with
  | none => rfl
  | some c => simpa using (h c hv).1

end EndsWord

namespace WellFormed

variable {kind : Token.Kind} {u v : List Char} {before : Option Char}

/-- A well-formed text is taken as a token wherever a word can end in front of it and behind it, and anywhere if it is
no word. -/
theorem shape (h : WellFormed kind u) (hbefore : isWordy kind = true → before.any Text.isWordChar = false)
    (hafter : isWordy kind = true → EndsWord v) : OnePass.Shape before v kind u := by
  cases h with
  | string hbody => exact .string hbody
  | int hne hu =>
    have hv := hafter rfl
    exact .int hne hu fun c hc => ⟨hv.isDigit_eq_false c hc, (hv c hc).2⟩
  | float hw hf hne => exact .float hw hf hne (hafter rfl).isDigit_eq_false
  | bool hu => exact .bool hu (hbefore rfl) (hafter rfl).any_isWordChar
  | identifier hne hu hno =>
    have hletter := OnePass.not_letter_of_not_word (hafter rfl).any_isWordChar
    exact .identifier hne hu hletter fun hbool => hno hbool.1
  | openParen => exact .openParen
  | closeParen => exact .closeParen
  | openBracket => exact .openBracket
  | closeBracket => exact .closeBracket

theorem lexes {text : String} {offset : Nat} (h : WellFormed kind text.toList)
    (hbefore : isWordy kind = true → before.any Text.isWordChar = false) (hafter : isWordy kind = true → EndsWord v) :
    Lexes offset before text.toList v [⟨kind, text, offset⟩] := .of_shape (h.shape hbefore hafter)

/-- The first character of a well-formed text is one of its kind. -/
theorem head (h : WellFormed kind u) : ∃ c rest, u = c :: rest ∧ startsWith kind c = true := by
  cases h with
  | string => exact ⟨_, _, rfl, rfl⟩
  | int hne hu =>
    obtain ⟨c, rest, rfl⟩ := List.exists_cons_of_ne_nil hne
    exact ⟨c, rest, rfl, hu c List.mem_cons_self⟩
  | @float whole fraction hw _ _ =>
    cases whole with
    | nil => exact ⟨'.', fraction, rfl, rfl⟩
    | cons c whole =>
      have hc := hw c List.mem_cons_self
      exact ⟨c, whole ++ '.' :: fraction, rfl, by simp [startsWith, hc]⟩
  | bool hu =>
    have hletters := isLetter_of_mem_words hu
    cases u with
    | nil => simp [words_eq] at hu
    | cons c rest => exact ⟨c, rest, rfl, hletters c List.mem_cons_self⟩
  | identifier hne hu _ =>
    obtain ⟨c, rest, rfl⟩ := List.exists_cons_of_ne_nil hne
    exact ⟨c, rest, rfl, hu c List.mem_cons_self⟩
  | openParen | closeParen | openBracket | closeBracket => exact ⟨_, _, rfl, rfl⟩

/-- No token begins with a blank. -/
theorem isBlank_head (h : WellFormed kind u) : ∀ c ∈ (u ++ v).head?, Text.isBlank c = false := by
  have hrival : Token.Kind.whitespace ∉ rivals kind := by cases h <;> simp [rivals]
  obtain ⟨c, rest, rfl, hstart⟩ := h.head
  intro d hd
  cases hd
  exact OnePass.startsWith_eq_false kind .whitespace hstart hrival

/-- A token that is no word begins and ends with a character that is no part of one. -/
theorem marks (h : WellFormed kind u) (hk : isWordy kind = false) (before : Option Char) (v : List Char) :
    EndsWord (u ++ v) ∧ (u.getLast?.or before).any Text.isWordChar = false := by
  have single : ∀ c ∈ ['(', ')', '[', ']'],
      EndsWord ([c] ++ v) ∧ ([c].getLast?.or before).any Text.isWordChar = false := by
    intro c hc
    have hmark := isWordChar_of_mark (List.mem_cons_of_mem '"' hc)
    refine ⟨.cons hmark ?_, by simpa using hmark⟩
    rintro rfl
    simp at hc
  cases h with
  | @string body _ =>
    have hquote : Text.isWordChar '"' = false := isWordChar_of_mark List.mem_cons_self
    refine ⟨.cons hquote (by simp), ?_⟩
    rw [← List.cons_append, List.getLast?_concat]
    simpa using hquote
  | int | float | bool | identifier => cases hk
  | openParen | closeParen | openBracket | closeBracket => exact single _ (by simp)

end WellFormed

theorem wellFormed_def : WellFormed .identifier "def".toList :=
  .identifier (by simp) (by simp; decide) (by simp [words])

theorem wellFormed_x : WellFormed .identifier "x".toList :=
  .identifier (by simp) (by simp; decide) (by simp [words])

theorem wellFormed_one : WellFormed .int "1".toList := .int (by simp) (by simp)

/-! ### Blanks -/

/-- A run of blanks, which may be empty. -/
structure Blanks where
  text : String
  isBlank : ∀ c ∈ text.toList, Text.isBlank c = true

namespace Blanks

/-- What is read for a run of blanks. -/
def tokens (b : Blanks) (offset : Nat) : List Token :=
  if b.text = "" then [] else [⟨.whitespace, b.text, offset⟩]

variable {b : Blanks} {v : List Char} {before : Option Char} {offset : Nat}

theorem endsWord (h : b.text ≠ "") : EndsWord (b.text.toList ++ v) := by
  have hne : b.text.toList ≠ [] := by simpa using h
  obtain ⟨c, rest, hc⟩ := List.exists_cons_of_ne_nil hne
  rw [hc]
  exact .of_isBlank (b.isBlank c (by simp [hc]))

theorem isWordChar_getLast? (h : b.text ≠ "") : (b.text.toList.getLast?.or before).any Text.isWordChar = false := by
  have hne : b.text.toList ≠ [] := by simpa using h
  have hlast := isWordChar_of_isBlank (b.isBlank _ (List.getLast_mem hne))
  simpa [List.getLast?_eq_some_getLast hne] using hlast

theorem lexes (hv : ∀ c ∈ v.head?, Text.isBlank c = false) :
    Lexes offset before b.text.toList v (b.tokens offset) := by
  by_cases h : b.text = ""
  · rw [tokens, if_pos h, h]
    exact .nil
  · have hne : b.text.toList ≠ [] := by simpa using h
    rw [tokens, if_neg h]
    exact .of_shape (.whitespace hne b.isBlank hv)

theorem isBlank_of_mem_nothing : ∀ c ∈ "".toList, Text.isBlank c = true := by
  simp

theorem isBlank_of_mem_space : ∀ c ∈ " ".toList, Text.isBlank c = true := by
  simp
  decide

def nothing : Blanks := ⟨"", isBlank_of_mem_nothing⟩

def space : Blanks := ⟨" ", isBlank_of_mem_space⟩

theorem space_ne_empty : space.text ≠ "" := by
  simp [space]

end Blanks

/-! ### Written tokens -/

/-- A token as it is written, with the blanks behind it. -/
structure Piece where
  kind : Token.Kind
  text : String
  blanks : Blanks
  wellFormed : WellFormed kind text.toList

namespace Piece

/-- Two neighbours that are both words have a blank between them. -/
def Separated (p q : Piece) : Prop := isWordy p.kind = true → isWordy q.kind = true → p.blanks.text ≠ ""

/-- The text of the pieces in a row. -/
def write : List Piece → String
  | [] => ""
  | p :: ps => p.text ++ (p.blanks.text ++ write ps)

/-- The tokens of the pieces, with those of the blanks, from a place on. -/
def tokens (offset : Nat) : List Piece → List Token
  | [] => []
  | p :: ps => ⟨p.kind, p.text, offset⟩ :: (p.blanks.tokens (offset + p.text.utf8ByteSize) ++
      tokens (offset + p.text.utf8ByteSize + p.blanks.text.utf8ByteSize) ps)

variable {p : Piece} {ps : List Piece} {before : Option Char} {offset : Nat}

theorem isBlank_head?_write (ps : List Piece) : ∀ c ∈ (write ps).toList.head?, Text.isBlank c = false := by
  cases ps with
  | nil => simp [write]
  | cons p ps =>
    rw [write, String.toList_append]
    exact p.wellFormed.isBlank_head

/-- Behind a word there is a blank, a token that is no word, or nothing. -/
theorem endsWord_of_separated (hp : isWordy p.kind = true) (hsep : (p :: ps).IsChain Separated) :
    EndsWord (p.blanks.text.toList ++ (write ps).toList) := by
  by_cases hb : p.blanks.text = ""
  · rw [hb, String.toList_empty, List.nil_append]
    cases ps with
    | nil => exact .nil
    | cons q ps =>
      have hq : isWordy q.kind = false := by
        rw [← Bool.not_eq_true]
        exact fun hq => (List.isChain_cons_cons.1 hsep).1 hp hq hb
      rw [write, String.toList_append]
      exact (q.wellFormed.marks hq none _).1
  · exact Blanks.endsWord hb

/-- In front of a word behind a token there is a blank or the end of a token that is no word. -/
theorem isWordChar_of_separated {q : Piece} (hq : isWordy q.kind = true) (hsep : Separated p q) :
    (p.blanks.text.toList.getLast?.or (p.text.toList.getLast?.or before)).any Text.isWordChar = false := by
  by_cases hb : p.blanks.text = ""
  · have hp : isWordy p.kind = false := by
      rw [← Bool.not_eq_true]
      exact fun hp => hsep hp hq hb
    rw [hb]
    exact (p.wellFormed.marks hp before []).2
  · exact Blanks.isWordChar_getLast? hb

theorem lexes_write (hsep : ps.IsChain Separated)
    (hbefore : ∀ p ∈ ps.head?, isWordy p.kind = true → before.any Text.isWordChar = false) :
    Lexes offset before (write ps).toList [] (tokens offset ps) := by
  -- the token before the rest decides whether a word can begin there
  induction ps generalizing offset before with
  | nil => exact .nil
  | cons p ps ih =>
    have hrest : ∀ q ∈ ps.head?, isWordy q.kind = true →
        (p.blanks.text.toList.getLast?.or (p.text.toList.getLast?.or before)).any Text.isWordChar = false := by
      intro q hq hword
      exact isWordChar_of_separated hword ((List.isChain_cons.1 hsep).1 q hq)
    rw [write, String.toList_append, String.toList_append]
    show Lexes offset before _ [] ([⟨p.kind, p.text, offset⟩] ++ _)
    refine Lexes.append ?_ (Lexes.append ?_ ?_)
    · rw [List.append_nil]
      exact p.wellFormed.lexes (hbefore p rfl) fun hp => endsWord_of_separated hp hsep
    · rw [List.append_nil, byteSize_toList]
      exact Blanks.lexes (isBlank_head?_write ps)
    · rw [byteSize_toList, byteSize_toList]
      exact ih hsep.tail hrest

end Piece

/-- Well-formed tokens, written in a row with a blank between words, are read back with the same kinds and texts at the
bytes where they stand, with one token for each run of blanks that is not empty. -/
theorem tokenize_write (lead : Blanks) (ps : List Piece) (hsep : ps.IsChain Piece.Separated) :
    Lexer.tokenize Rule.standard (lead.text ++ Piece.write ps) =
      .ok (lead.tokens 0 ++ Piece.tokens lead.text.utf8ByteSize ps) := by
  have hstart : (lead.text.toList.getLast?.or none).any Text.isWordChar = false := by
    by_cases hl : lead.text = ""
    · rw [hl]
      rfl
    · exact Blanks.isWordChar_getLast? hl
  apply Lexes.tokenize_eq
  rw [String.toList_append]
  apply Lexes.append
  · rw [List.append_nil]
    exact Blanks.lexes (Piece.isBlank_head?_write ps)
  · rw [Nat.zero_add, byteSize_toList]
    exact Piece.lexes_write hsep fun _ _ _ => hstart

private def newline : Blanks := ⟨"\n", by simp; decide⟩

private def mixed : List Piece :=
  [⟨.bool, "true", ⟨"", by simp⟩, .bool (by simp [words])⟩,
    ⟨.string, "\"é (.5\"", ⟨"", by simp⟩, @WellFormed.string ['é', ' ', '(', '.', '5'] (by simp)⟩,
    ⟨.float, ".5", ⟨"", by simp⟩, @WellFormed.float [] ['5'] (by simp) (by simp) (by simp)⟩,
    ⟨.openBracket, "[", ⟨"", by simp⟩, .openBracket⟩,
    ⟨.float, "1.", ⟨"\u00a0 ", by simp; decide⟩, @WellFormed.float ['1'] [] (by simp) (by simp) (by simp)⟩,
    ⟨.int, "2", ⟨"", by simp⟩, .int (by simp) (by simp)⟩]

theorem tokenize_mixed : mixed.IsChain Piece.Separated ∧
    newline.text ++ Piece.write mixed = "\ntrue\"é (.5\".5[1.\u00a0 2" ∧
    Lexer.tokenize Rule.standard (newline.text ++ Piece.write mixed) =
      .ok [⟨.whitespace, "\n", 0⟩, ⟨.bool, "true", 1⟩, ⟨.string, "\"é (.5\"", 5⟩, ⟨.float, ".5", 13⟩,
        ⟨.openBracket, "[", 15⟩, ⟨.float, "1.", 16⟩, ⟨.whitespace, "\u00a0 ", 18⟩, ⟨.int, "2", 21⟩] := by
  have hsep : mixed.IsChain Piece.Separated := by simp [mixed, Piece.Separated, isWordy]
  refine ⟨hsep, by decide, (tokenize_write newline mixed hsep).trans ?_⟩
  decide

end Lexer

end SinglePass
