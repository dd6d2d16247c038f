import CloudAccess.Json.Basic
import CloudAccess.Number.Decimal
import CloudAccess.Text.Hex
import CloudAccess.Text.Printable

/-!
# How messages show values

`Json.quoted` shows a value the way it stands inside a list; `Json.shown` is the same except that
a text stands bare.  `quotedText` is the written form of a text: single quotes unless the text
holds one and no double quote, and an escape for the quote, the backslash and every character
that is not printable.

Integers are shown whatever their length.  JSON text gives none of more than `integerDigits`
digits, and only for such values is what is shown meant to be what messages and comparisons see.
-/

namespace CloudAccess

/-- The written form of one character inside the quote `quote`. -/
def quotedChar (quote c : Char) : List Char :=
  if c = quote || c = '\\' then ['\\', c]
  else if c = '\t' then ['\\', 't']
  else if c = '\n' then ['\\', 'n']
  else if c = '\r' then ['\\', 'r']
  else if Text.isPrintable c then [c]
  else if c.toNat < 0x100 then '\\' :: 'x' :: Text.hexDigits 2 c.toNat
  else if c.toNat < 0x10000 then '\\' :: 'u' :: Text.hexDigits 4 c.toNat
  else '\\' :: 'U' :: Text.hexDigits 8 c.toNat

/-- The written form of a text. -/
def quotedText (s : String) : String :=
  let cs := s.toList
  let quote := if cs.contains '\'' && !cs.contains '"' then '"' else '\''
  String.ofList (quote :: cs.flatMap (quotedChar quote) ++ [quote])

/-- Numbers in messages: positional from `0.0001` up to sixteen digits before the point,
integral ones with `.0`, exponents with a sign and two digits. -/
def numberStyle : DecimalStyle where
  positionalFrom := -4
  positionalBelow := 16
  integralEnding := ['.', '0']
  exponentMark := 'e'
  exponentWidth := 2
  nanText := "nan"
  infinityText := "inf"

/-- An integer in decimal, of any length. -/
def intText (n : Int) : String :=
  String.ofList ((if n < 0 then ['-'] else []) ++ natDigits n.natAbs)

namespace Json

mutual

/-- A value as it stands inside a list. -/
def quoted : Json → String
  | .null => "None"
  | .bool b => if b then "True" else "False"
  | .int n => intText n
  | .float x => numberStyle.render x
  | .str s => quotedText s
  | .arr items => "[" ++ ", ".intercalate (quotedItems items) ++ "]"
  | .obj ms => "\x7b" ++ ", ".intercalate (quotedMembers ms) ++ "\x7d"

def quotedItems : List Json → List String
  | [] => []
  | v :: vs => quoted v :: quotedItems vs

def quotedMembers : List (String × Json) → List String
  | [] => []
  | (n, v) :: ms => (quotedText n ++ ": " ++ quoted v) :: quotedMembers ms

end

/-- A value as messages show it: a text stands bare. -/
def shown : Json → String
  | .str s => s
  | v => v.quoted

end Json
end CloudAccess
