import SinglePass.Token.Literal

/-!
# Array literals

An array literal is read with a stack of the lists that are still open, the innermost first.  Only literal tokens
and nested brackets may stand in it.  Brackets count toward the nesting limit together with the parentheses around
the literal.
-/

namespace SinglePass

/-- Fails if one more parenthesis or bracket would pass the limit. -/
def requireRoom (opened limit : Nat) : Except Error Unit :=
  if limit ≤ opened then .error (.tooDeep limit) else .ok ()

namespace ArrayLiteral

/-- What a token leaves of an array literal: lists that are still open, or the whole array. -/
inductive Progress where
  | unfinished (stack : List (List Value))
  | finished (v : Value)

/-- Reads one token, with `opened` parentheses around the literal. -/
def step (opened limit : Nat) (stack : List (List Value)) (t : Token) : Except Error Progress :=
  match t.kind with
  | .openBracket => do
    requireRoom (opened + stack.length) limit
    return .unfinished ([] :: stack)
  | .closeBracket =>
    match stack with
    | items :: outer :: rest => .ok (.unfinished ((outer ++ [.array items]) :: rest))
    | [items] => .ok (.finished (.array items))
    | [] => .ok (.finished (.array []))
  | .openParen => .error .callInArray
  | .closeParen => .error .openArray
  | .identifier => .error (.nameInArray t.offset)
  | .whitespace => .ok (.unfinished stack)
  | .string | .int | .float | .bool =>
    match stack, t.literal? with
    | items :: rest, some r => r.map fun v => .unfinished ((items ++ [v]) :: rest)
    | _, _ => .ok (.unfinished stack)

/-- What was made of tokens: the array or an error, and the tokens behind the last one that was read. -/
@[ext]
structure Reading (ts : List Token) where
  result : Except Error Value
  rest : List Token
  suffix : rest <:+ ts

namespace Reading

variable {ts : List Token}

/-- An array or an error that comes before any of the tokens is read. -/
def now (result : Except Error Value) (ts : List Token) : Reading ts := ⟨result, ts, List.suffix_refl ts⟩

/-- The same with one more token in front, which was read before. -/
def after (t : Token) (r : Reading ts) : Reading (t :: ts) :=
  { r with suffix := r.suffix.trans (List.suffix_cons t ts) }

/-- Goes on with the array and the tokens behind it, unless there was an error. -/
def andThen (r : Reading ts) (next : Value → (rest : List Token) → rest <:+ ts → Reading rest) : Reading ts :=
  match r.result with
  | .ok v => { next v r.rest r.suffix with suffix := (next v r.rest r.suffix).suffix.trans r.suffix }
  | .error _ => r

end Reading

/-- Reads on until the array is finished. -/
def readFrom (opened limit : Nat) (stack : List (List Value)) : (ts : List Token) → Reading ts
  | [] => .now (.error .openArray) []
  | t :: ts => .after t <|
    match step opened limit stack t with
    | .ok (.unfinished stack) => readFrom opened limit stack ts
    | .ok (.finished v) => .now (.ok v) ts
    | .error e => .now (.error e) ts

/-- Reads an array literal whose opening bracket has just been read. -/
def read (opened limit : Nat) (ts : List Token) : Reading ts :=
  match requireRoom opened limit with
  | .ok () => readFrom opened limit [[]] ts
  | .error e => .now (.error e) ts

end ArrayLiteral

end SinglePass
