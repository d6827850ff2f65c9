import SinglePass.Lexer.Rule

/-!
# From source to tokens

Every rule is matched over the whole source by itself.  The rules claim their matches in the order of the table:
a match is taken if it is not empty and none of its bytes is claimed yet, and dropped whole otherwise.  The taken
matches in the order of the source are the tokens, provided that they cover it; if not, the first character that
nothing covers is the error.
-/

namespace SinglePass.Lexer

/-- Which bytes of the source are claimed, and the matches that were taken, in the order in which they were taken. -/
structure Claims where
  claimed : Array Bool
  taken : Array Token

/-- Nothing is claimed of a source of this size. -/
def Claims.start (size : Nat) : Claims := ⟨Array.replicate size false, #[]⟩

/-- Takes a match, unless it is empty or one of its bytes is claimed. -/
def Claims.offer (c : Claims) (t : Token) : Claims :=
  let bytes := List.range' t.offset t.text.utf8ByteSize
  if t.text = "" ∨ (bytes.any fun b => c.claimed.getD b false) = true then c
  else ⟨bytes.foldl (fun claimed b => claimed.setIfInBounds b true) c.claimed, c.taken.push t⟩

/-- What is claimed when all rules have been offered their matches. -/
def claims (rules : List Rule) (source : List Char) : Claims :=
  rules.foldl (fun c r => (r.found source).foldl Claims.offer c) (.start (byteSize source))

/-- The first character whose first byte is not claimed, with that byte. -/
def firstFree (claimed : Array Bool) (offset : Nat) : List Char → Option (Nat × Char)
  | [] => none
  | c :: cs => if claimed.getD offset false then firstFree claimed (offset + c.utf8Size) cs else some (offset, c)

def tokenize (rules : List Rule) (source : String) : Except Error (List Token) :=
  let cs := claims rules source.toList
  match firstFree cs.claimed 0 source.toList with
  | some (offset, c) => .error (.uncovered offset c)
  | none => .ok (cs.taken.toList.mergeSort fun s t => decide (s.offset ≤ t.offset))

end SinglePass.Lexer
