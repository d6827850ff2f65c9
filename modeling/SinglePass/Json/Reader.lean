import SinglePass.Decimal
import SinglePass.Json

/-!
# Reading JSON

A strict reader: blanks are space, tab, line feed and carriage return; numbers have no leading zeros; strings
contain no raw control characters; and nothing but blanks may follow the document.  The functions that follow the
nesting take a bound on the number of their calls, which `parse?` chooses large enough for every text.
-/

namespace SinglePass.Json

def isBlank (c : Char) : Bool := c == ' ' || c == '\t' || c == '\n' || c == '\r'

def skipBlanks (cs : List Char) : List Char := cs.dropWhile isBlank

/-! ### Numbers -/

/-- A fraction or nothing; a point has to be followed by a digit. -/
def readFraction : List Char → Option (List Char × List Char)
  | '.' :: cs =>
    match cs.takeWhile Char.isDigit with
    | [] => none
    | ds => some (ds, cs.dropWhile Char.isDigit)
  | cs => some ([], cs)

/-- The digits of an exponent, of which there has to be one. -/
def readExponentDigits (negative : Bool) (cs : List Char) : Option (Option (Bool × List Char) × List Char) :=
  match cs.takeWhile Char.isDigit with
  | [] => none
  | ds => some (some (negative, ds), cs.dropWhile Char.isDigit)

/-- An exponent or nothing. -/
def readExponent (cs : List Char) : Option (Option (Bool × List Char) × List Char) :=
  match cs with
  | c :: rest =>
    if c == 'e' || c == 'E' then
      let (negative, rest) := Decimal.splitSign rest
      readExponentDigits negative rest
    else some (none, cs)
  | [] => some (none, [])

/-- The digits before the point; a zero stands alone. -/
def readWhole : List Char → Option (List Char × List Char)
  | '0' :: cs => some (['0'], cs)
  | cs =>
    match cs.takeWhile Char.isDigit with
    | [] => none
    | ds => some (ds, cs.dropWhile Char.isDigit)

def readUnsigned (negative : Bool) (cs : List Char) : Option (Number × List Char) := do
  let (whole, cs) ← readWhole cs
  let (fraction, cs) ← readFraction cs
  let (exponent, cs) ← readExponent cs
  return (⟨negative, whole, fraction, exponent⟩, cs)

def readNumber : List Char → Option (Number × List Char)
  | '-' :: cs => readUnsigned true cs
  | cs => readUnsigned false cs

/-! ### Strings -/

/-- A part of a string: a character, or one half of a surrogate pair. -/
inductive Piece where
  | char (c : Char)
  | surrogate (unit : Nat)
deriving Repr

def hexDigit? (c : Char) : Option Nat :=
  if c.isDigit then some (c.toNat - '0'.toNat)
  else if 'a' ≤ c ∧ c ≤ 'f' then some (c.toNat - 'a'.toNat + 10)
  else if 'A' ≤ c ∧ c ≤ 'F' then some (c.toNat - 'A'.toNat + 10)
  else none

/-- The number that hexadecimal digits denote. -/
def hexValue? (ds : List Char) : Option Nat :=
  ds.foldlM (fun n d => (hexDigit? d).map fun k => 16 * n + k) 0

/-- The piece denoted by a 16-bit unit. -/
def Piece.ofUnit (unit : Nat) : Piece :=
  if 0xD800 ≤ unit ∧ unit < 0xE000 then surrogate unit else char (Char.ofNat unit)

/-- The character denoted by the letter behind a backslash. -/
def escaped? : Char → Option Char
  | '"' => some '"'
  | '\\' => some '\\'
  | '/' => some '/'
  | 'b' => some '\x08'
  | 'f' => some '\x0c'
  | 'n' => some '\n'
  | 'r' => some '\r'
  | 't' => some '\t'
  | _ => none

/-- The pieces of a string whose opening quote has been read, through its closing quote. -/
def readPieces : List Char → Option (List Piece × List Char)
  | [] => none
  | '"' :: cs => some ([], cs)
  | '\\' :: 'u' :: a :: b :: c :: d :: cs => do
    let unit ← hexValue? [a, b, c, d]
    let (pieces, cs) ← readPieces cs
    return (Piece.ofUnit unit :: pieces, cs)
  | '\\' :: c :: cs => do
    let e ← escaped? c
    let (pieces, cs) ← readPieces cs
    return (.char e :: pieces, cs)
  | c :: cs =>
    if c == '\\' || c < ' ' then none
    else do
      let (pieces, cs) ← readPieces cs
      return (.char c :: pieces, cs)

/-- Joins the halves of surrogate pairs; a half without its partner denotes no text. -/
def join? : List Piece → Option (List Char)
  | [] => some []
  | .char c :: rest => (join? rest).map (c :: ·)
  | .surrogate high :: .surrogate low :: rest =>
    if high < 0xDC00 ∧ 0xDC00 ≤ low then
      (join? rest).map (Char.ofNat (0x10000 + (high - 0xD800) * 0x400 + (low - 0xDC00)) :: ·)
    else none
  | .surrogate _ :: _ => none

/-- A string whose opening quote has been read; the text is missing if it is unreadable. -/
def readString (cs : List Char) : Option (Option String × List Char) :=
  (readPieces cs).map fun (pieces, rest) => ((join? pieces).map String.ofList, rest)

/-! ### Documents -/

/-- The object with these members, unless a key is unreadable. -/
def ofMembers (members : List (Option String × Json)) : Json :=
  match members.mapM fun (key, v) => key.map fun k => (k, v) with
  | some members => object members
  | none => unreadable

mutual

def readValue : Nat → List Char → Option (Json × List Char)
  | 0, _ => none
  | calls + 1, cs =>
    match skipBlanks cs with
    | 'n' :: 'u' :: 'l' :: 'l' :: cs => some (null, cs)
    | 't' :: 'r' :: 'u' :: 'e' :: cs => some (bool true, cs)
    | 'f' :: 'a' :: 'l' :: 's' :: 'e' :: cs => some (bool false, cs)
    | '"' :: cs => (readString cs).map fun (s, cs) => ((s.map string).getD unreadable, cs)
    | '[' :: cs =>
      match skipBlanks cs with
      | ']' :: cs => some (array [], cs)
      | cs => (readItems calls cs).map fun (items, cs) => (array items, cs)
    | '\x7b' :: cs =>
      match skipBlanks cs with
      | '\x7d' :: cs => some (object [], cs)
      | cs => (readMembers calls cs).map fun (members, cs) => (ofMembers members, cs)
    | cs => (readNumber cs).map fun (n, cs) => (number n, cs)

/-- One or more items and the closing bracket. -/
def readItems : Nat → List Char → Option (List Json × List Char)
  | 0, _ => none
  | calls + 1, cs => do
    let (v, cs) ← readValue calls cs
    match skipBlanks cs with
    | ',' :: cs => (readItems calls cs).map fun (items, cs) => (v :: items, cs)
    | ']' :: cs => some ([v], cs)
    | _ => none

/-- One or more members and the closing brace. -/
def readMembers : Nat → List Char → Option (List (Option String × Json) × List Char)
  | 0, _ => none
  | calls + 1, cs =>
    match skipBlanks cs with
    | '"' :: cs => do
      let (key, cs) ← readString cs
      match skipBlanks cs with
      | ':' :: cs =>
        let (v, cs) ← readValue calls cs
        match skipBlanks cs with
        | ',' :: cs => (readMembers calls cs).map fun (members, cs) => ((key, v) :: members, cs)
        | '\x7d' :: cs => some ([(key, v)], cs)
        | _ => none
      | _ => none
    | _ => none

end

/-- The document that a text denotes.  Every call that follows the nesting reads at least one character before the
next but one, so twice the length of the text bounds the calls. -/
def parse? (s : String) : Option Json :=
  match readValue (2 * s.length + 2) s.toList with
  | some (v, cs) => if skipBlanks cs = [] then some v else none
  | none => none

end SinglePass.Json
