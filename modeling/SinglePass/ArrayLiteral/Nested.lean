import SinglePass.ArrayLiteral

/-!
# Array literals by recursion

The recursive way to read an array literal, with one call for each bracket level.  It is the reference for the
reader that keeps a stack.
-/

namespace SinglePass.ArrayLiteral

/-- Reads on in the list at bracket level `level`, whose items so far are given, through the bracket that closes it.
A nested list is read by another call, and then becomes an item. -/
def readLevel (opened limit level : Nat) (items : List Value) : (ts : List Token) → Reading ts
  | [] => .now (.error .openArray) []
  | t :: ts => .after t <|
    match t.kind with
    | .openBracket =>
      match requireRoom (opened + level) limit with
      | .ok () =>
        (readLevel opened limit (level + 1) [] ts).andThen fun inner rest _ =>
          readLevel opened limit level (items ++ [inner]) rest
      | .error e => .now (.error e) ts
    | .closeBracket => .now (.ok (.array items)) ts
    | .openParen => .now (.error .callInArray) ts
    | .closeParen => .now (.error .openArray) ts
    | .identifier => .now (.error (.nameInArray t.offset)) ts
    | .whitespace => readLevel opened limit level items ts
    | .string | .int | .float | .bool =>
      match t.literal? with
      | some (.ok v) => readLevel opened limit level (items ++ [v]) ts
      | some (.error e) => .now (.error e) ts
      | none => readLevel opened limit level items ts
termination_by ts => ts.length
decreasing_by all_goals grind

/-- Reads an array literal whose opening bracket has just been read. -/
def readNested (opened limit : Nat) (ts : List Token) : Reading ts :=
  match requireRoom opened limit with
  | .ok () => readLevel opened limit 1 [] ts
  | .error e => .now (.error e) ts

end SinglePass.ArrayLiteral
