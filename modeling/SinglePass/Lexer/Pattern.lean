import SinglePass.Text.Classes

/-!
# Patterns

A pattern says how many characters it matches at a place in the source, given the character before the place and
the characters from there on; a match may be empty.  `findIter` walks the source from left to right and collects the
matches of one pattern: where the pattern matches, the walk goes on behind the match, and by one character if the match
is empty or there is none.  So the matches come in order and no two of them overlap.
-/

namespace SinglePass

structure Pattern where
  /-- The number of characters matched, if there is a match. -/
  match? : Option Char → List Char → Option Nat

/-- The number of bytes that characters take in the source. -/
def byteSize : List Char → Nat
  | [] => 0
  | c :: cs => c.utf8Size + byteSize cs

namespace Pattern

/-! ### The patterns in use -/

/-- A pattern without empty matches, by the number of characters matched, which is zero if there is no match. -/
def ofLength (length : Option Char → List Char → Nat) : Pattern where
  match? before cs := if length before cs = 0 then none else some (length before cs)

/-- As many characters of a class as there are, but at least one. -/
def run (p : Char → Bool) : Pattern := ofLength fun _ cs => (cs.takeWhile p).length

/-- As many characters of a class as there are, or none. -/
def runOrNothing (p : Char → Bool) : Pattern := ⟨fun _ cs => some (cs.takeWhile p).length⟩

/-- One character of a class. -/
def single (p : Char → Bool) : Pattern := ofLength fun _ cs => if cs.head?.any p then 1 else 0

/-- A fixed text. -/
def text (w : List Char) : Pattern := ofLength fun _ cs => if w.isPrefixOf cs then w.length else 0

/-- A quote, and everything through the next one. -/
def quoted : Pattern := ofLength fun
  | _, '"' :: cs =>
    let body := cs.takeWhile (· ≠ '"')
    if body.length < cs.length then body.length + 2 else 0
  | _, _ => 0

/-- Digits with a point before, among or after them. -/
def decimal : Pattern := ofLength fun _ cs =>
  let whole := cs.takeWhile Char.isDigit
  match cs.dropWhile Char.isDigit with
  | '.' :: rest =>
    let fraction := rest.takeWhile Char.isDigit
    if whole = [] ∧ fraction = [] then 0 else whole.length + 1 + fraction.length
  | _ => 0

/-- One of several texts, standing as a word of its own. -/
def word (ws : List (List Char)) : Pattern := ofLength fun before cs =>
  if before.any Text.isWordChar then 0
  else
    let fits := fun w : List Char => w.isPrefixOf cs && !((cs.drop w.length).head?.any Text.isWordChar)
    ((ws.find? fits).map List.length).getD 0

def isLetter (c : Char) : Bool := c.isLower || c.isUpper

/-! ### Matches -/

/-- The matches in a source, each with the byte at which it starts.  An empty match right behind another match does not
count; `adjacent` says whether the place is right behind one. -/
def findIter (p : Pattern) (offset : Nat) (before : Option Char) (adjacent : Bool) : List Char → List (Nat × List Char)
  | [] => if (p.match? before []).isSome && !adjacent then [(offset, [])] else []
  | c :: cs =>
    match p.match? before (c :: cs) with
    | none => findIter p (offset + c.utf8Size) (some c) false cs
    | some 0 =>
      if adjacent then findIter p (offset + c.utf8Size) (some c) false cs
      else (offset, []) :: findIter p (offset + c.utf8Size) (some c) false cs
    | some (n + 1) =>
      let found := c :: cs.take n
      (offset, found) :: findIter p (offset + byteSize found) found.getLast? true (cs.drop n)
termination_by cs => cs.length
decreasing_by
  · exact Nat.lt_succ_self _
  · exact Nat.lt_succ_self _
  · exact Nat.lt_succ_self _
  · exact Nat.lt_succ_of_le (List.length_drop ▸ Nat.sub_le _ _)

end Pattern

end SinglePass
