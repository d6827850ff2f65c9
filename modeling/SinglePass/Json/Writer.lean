import SinglePass.Json.Number

/-!
# Writing JSON

Documents are written without blanks.  In strings, quotes, backslashes and the control characters below the blank
are escaped, and everything else stands as it is.
-/

namespace SinglePass.Json

def hexChar (n : Nat) : Char := (Nat.toDigits 16 n).headD '0'

/-- A character inside a string. -/
def escape (c : Char) : List Char :=
  if c = '"' then ['\\', '"']
  else if c = '\\' then ['\\', '\\']
  else if c = '\x08' then ['\\', 'b']
  else if c = '\t' then ['\\', 't']
  else if c = '\n' then ['\\', 'n']
  else if c = '\x0c' then ['\\', 'f']
  else if c = '\r' then ['\\', 'r']
  else if c < ' ' then ['\\', 'u', '0', '0', hexChar (c.toNat / 16), hexChar (c.toNat % 16)]
  else [c]

def quote (cs : List Char) : List Char := '"' :: cs.flatMap escape ++ ['"']

mutual

/-- The compact text of a document.  What is unreadable has no text of its own and is written as null. -/
def render : Json → List Char
  | null => "null".toList
  | bool b => (if b then "true" else "false").toList
  | number n => n.render
  | string s => quote s.toList
  | array items => '[' :: renderItems items ++ [']']
  | object members => '\x7b' :: renderMembers members ++ ['\x7d']
  | unreadable => "null".toList

def renderItems : List Json → List Char
  | [] => []
  | [v] => render v
  | v :: rest => render v ++ ',' :: renderItems rest

def renderMembers : List (String × Json) → List Char
  | [] => []
  | [(key, v)] => quote key.toList ++ ':' :: render v
  | (key, v) :: rest => quote key.toList ++ ':' :: render v ++ ',' :: renderMembers rest

end

def text (j : Json) : String := String.ofList j.render

end SinglePass.Json
