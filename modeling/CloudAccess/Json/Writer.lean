import CloudAccess.Json.Display

/-!
# Writing JSON text

`Json.write` is the text of a value on one line, `Json.writeIndented` the text with two blanks of
indentation per level.  Both are pure ASCII: every other character is written as one or two
`\uXXXX` units, so that reading a written text gives the value back.
-/

namespace CloudAccess.Json

/-- Numbers in JSON text: as in messages, but with other names for what is not finite. -/
def textNumberStyle : DecimalStyle :=
  { numberStyle with nanText := "NaN", infinityText := "Infinity" }

/-- A 16-bit unit as an escape. -/
def escapedUnit (n : Nat) : List Char := '\\' :: 'u' :: Text.hexDigits 4 n

/-- A character inside a string. -/
def writtenChar (c : Char) : List Char :=
  if c = '"' then ['\\', '"']
  else if c = '\\' then ['\\', '\\']
  else if c = '\n' then ['\\', 'n']
  else if c = '\r' then ['\\', 'r']
  else if c = '\t' then ['\\', 't']
  else if c.toNat = 8 then ['\\', 'b']
  else if c.toNat = 12 then ['\\', 'f']
  else if 32 ≤ c.toNat ∧ c.toNat ≤ 126 then [c]
  else if c.toNat < 0x10000 then escapedUnit c.toNat
  else
    let n := c.toNat - 0x10000
    escapedUnit (0xD800 + n / 0x400) ++ escapedUnit (0xDC00 + n % 0x400)

/-- A string with its quotes. -/
def writtenString (s : String) : List Char := '"' :: s.toList.flatMap writtenChar ++ ['"']

/-- How the parts of a list or an object are set apart: what stands after the opening bracket,
after a comma and before the closing bracket of a level. -/
structure Layout where
  afterOpen : Nat → List Char
  afterComma : Nat → List Char
  beforeClose : Nat → List Char

/-- All on one line, with a blank after each comma. -/
def Layout.oneLine : Layout where
  afterOpen _ := []
  afterComma _ := [' ']
  beforeClose _ := []

/-- Every part on a line of its own, two blanks deeper than its bracket. -/
def Layout.indented : Layout where
  afterOpen level := '\n' :: List.replicate (2 * (level + 1)) ' '
  afterComma level := '\n' :: List.replicate (2 * (level + 1)) ' '
  beforeClose level := '\n' :: List.replicate (2 * level) ' '

mutual

/-- The text of a value at a level of nesting. -/
def written (layout : Layout) (level : Nat) : Json → List Char
  | .null => "null".toList
  | .bool b => (if b then "true" else "false").toList
  | .int n => (intText n).toList
  | .float x => (textNumberStyle.render x).toList
  | .str s => writtenString s
  | .arr [] => ['[', ']']
  | .arr (v :: vs) =>
    '[' :: layout.afterOpen level ++ written layout (level + 1) v ++
      writtenItems layout level vs ++ layout.beforeClose level ++ [']']
  | .obj [] => ['{', '}']
  | .obj ((n, v) :: ms) =>
    '{' :: layout.afterOpen level ++ writtenString n ++ [':', ' '] ++
      written layout (level + 1) v ++ writtenMembers layout level ms ++
      layout.beforeClose level ++ ['}']

/-- The items after the first. -/
def writtenItems (layout : Layout) (level : Nat) : List Json → List Char
  | [] => []
  | v :: vs =>
    ',' :: layout.afterComma level ++ written layout (level + 1) v ++
      writtenItems layout level vs

/-- The members after the first. -/
def writtenMembers (layout : Layout) (level : Nat) : List (String × Json) → List Char
  | [] => []
  | (n, v) :: ms =>
    ',' :: layout.afterComma level ++ writtenString n ++ [':', ' '] ++
      written layout (level + 1) v ++ writtenMembers layout level ms

end

/-- The text of a value on one line. -/
def write (v : Json) : String := String.ofList (written .oneLine 0 v)

/-- The indented text of a value. -/
def writeIndented (v : Json) : String := String.ofList (written .indented 0 v)

end CloudAccess.Json
