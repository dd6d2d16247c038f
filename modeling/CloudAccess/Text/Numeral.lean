import CloudAccess.Number.Decimal
import CloudAccess.Text.Digit

/-!
# Numerals as people type them

Blanks around a numeral are passed over, digits of every script count, and single underscores
may stand between digits.

* `Numeral.double?` reads a decimal number, an infinity or a NaN.
* `Numeral.integer?` reads an integer.
-/

namespace CloudAccess.Text.Numeral

/-- Every decimal digit as an ASCII digit; nothing when a character is neither that nor ASCII. -/
def asciiDigits? (cs : List Char) : Option (List Char) :=
  cs.mapM fun c =>
    if c.toNat < 127 then some c
    else (decimalValue? c).map fun n => Char.ofNat (n + '0'.toNat)

/-- Removes underscores, each of which must stand between two digits. -/
def dropUnderscores? (afterDigit : Bool) : List Char → Option (List Char)
  | [] => some []
  | '_' :: rest =>
    match afterDigit, rest with
    | true, c :: _ => if c.isDigit then dropUnderscores? false rest else none
    | _, _ => none
  | c :: rest => (dropUnderscores? c.isDigit rest).map (c :: ·)

/-- The sign and what follows it. -/
def sign : List Char → Bool × List Char
  | '-' :: rest => (true, rest)
  | '+' :: rest => (false, rest)
  | cs => (false, cs)

/-- The plain characters of a numeral. -/
def plain? (s : String) : Option (List Char) :=
  (asciiDigits? (trim s.toList)).bind (dropUnderscores? false)

/-- The exponent after its letter: an optional sign and at least one digit. -/
def exponent? (cs : List Char) : Option Int :=
  let (negative, ds) := sign cs
  if ds.isEmpty || !ds.all Char.isDigit then none
  else some (if negative then -(natOfDigits ds : Int) else natOfDigits ds)

/-- A decimal number without its sign. -/
def unsigned? (negative : Bool) (cs : List Char) : Option Double :=
  let whole := cs.takeWhile Char.isDigit
  let rest := cs.dropWhile Char.isDigit
  let (fraction, rest) := match rest with
    | '.' :: r => (r.takeWhile Char.isDigit, r.dropWhile Char.isDigit)
    | r => ([], r)
  let digits := whole ++ fraction
  if digits.isEmpty then none
  else
    let number (e : Int) := Double.ofDecimal negative (natOfDigits digits) (e - fraction.length)
    match rest with
    | [] => some (number 0)
    | 'e' :: r => (exponent? r).map number
    | 'E' :: r => (exponent? r).map number
    | _ => none

/-- Reads a number. -/
def double? (s : String) : Option Double := do
  let cs ← plain? s
  let (negative, body) := sign cs
  let word := String.ofList (body.map Char.toLower)
  if word = "inf" || word = "infinity" then some (.infinity negative)
  else if word = "nan" then some .quietNaN
  else unsigned? negative body

/-- Reads an integer; one with too many digits is none. -/
def integer? (s : String) : Option Int := do
  let cs ← plain? s
  let (negative, ds) := sign cs
  if ds.isEmpty || !ds.all Char.isDigit || integerDigits < ds.length then none
  else
    let n : Int := natOfDigits ds
    some (if negative then -n else n)

end CloudAccess.Text.Numeral
