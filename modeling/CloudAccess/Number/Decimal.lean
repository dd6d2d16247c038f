import CloudAccess.Number.Double

/-!
# Decimal numerals

* `Digits.shortest` gives the fewest decimal digits that read back as a given number, and
  among those the nearest; an exact tie goes to the even digit.
* `DecimalStyle` records the decisions a text format makes about such digits, and
  `DecimalStyle.render` writes a number in it.
* `Double.ofDecimal` reads `digits · 10 ^ exponent` as the nearest number.
-/

namespace CloudAccess

/-! ## Digits of naturals -/

/-- The decimal digits of a natural, most significant first. -/
def natDigits (n : Nat) : List Char := Nat.toDigits 10 n

/-- The natural that a list of ASCII digits denotes, most significant first. -/
def natOfDigits (cs : List Char) : Nat :=
  cs.foldl (fun n c => 10 * n + (c.toNat - '0'.toNat)) 0

/-! ## Reading -/

/-- The most digits a numeral of an integer may have. -/
def integerDigits : Nat := 4300

/-- The number nearest to `± digits · 10 ^ exponent`.  Exponents far outside the range of
the format are settled first, so that no huge power is computed. -/
def Double.ofDecimal (negative : Bool) (digits : Nat) (exponent : Int) : Double :=
  if digits = 0 then .zero negative
  else
    let top := exponent + (natDigits digits).length
    if 400 < top then .infinity negative
    else if top < -400 then .zero negative
    else if 0 ≤ exponent then .ofRatio negative (digits * tenPow exponent.toNat) 1
    else .ofRatio negative digits (tenPow (-exponent).toNat)

/-! ## The fewest digits that read back -/

/-- A positive decimal `digits · 10 ^ exponent`. -/
structure Digits where
  digits : Nat
  exponent : Int
deriving DecidableEq

namespace Digits

/-- The reals that round to `mantissa · 2 ^ exponent`, in units of `2 ^ (exponent - 2)`. -/
structure Interval where
  value : Nat
  low : Nat
  high : Nat
  closed : Bool
  unit : Int

/-- Just above a power of two the gap below is half the gap above; the ends belong to the
interval when the mantissa is even. -/
def intervalOf (mantissa : Nat) (exponent : Int) : Interval where
  value := 4 * mantissa
  low := if mantissa = twoPow 52 ∧ -1074 < exponent then 4 * mantissa - 1 else 4 * mantissa - 2
  high := 4 * mantissa + 2
  closed := mantissa % 2 = 0
  unit := exponent - 2

/-- Scales `a · 2 ^ unit` and `10 ^ place` to integers: the first becomes `a` times the first
result, the second becomes the second. -/
def scales (unit place : Int) : Nat × Nat :=
  (twoPow unit.toNat * tenPow (-place).toNat, tenPow place.toNat * twoPow (-unit).toNat)

/-- Whether `n · 10 ^ place` lies in the interval. -/
def Interval.holds (i : Interval) (n : Nat) (place : Int) : Bool :=
  let (s, t) := scales i.unit place
  if i.closed then i.low * s ≤ n * t && n * t ≤ i.high * s
  else i.low * s < n * t && n * t < i.high * s

/-- The multiple of `10 ^ place` inside the interval that is nearest to the value, if any of
the value's two neighbours on that grid is inside. -/
def Interval.nearest? (i : Interval) (place : Int) : Option Nat :=
  let (s, t) := scales i.unit place
  let below := i.value * s / t
  let rest := i.value * s % t
  match i.holds below place, i.holds (below + 1) place with
  | false, false => none
  | true, false => some below
  | false, true => some (below + 1)
  | true, true =>
    if 2 * rest < t then some below
    else if t < 2 * rest then some (below + 1)
    else if below % 2 = 0 then some below else some (below + 1)

/-- Tries finer and finer grids, `count` of them. -/
def Interval.search (i : Interval) : Nat → Int → Digits
  | 0, place => ⟨i.value, place⟩
  | count + 1, place =>
    match i.nearest? place with
    | some n => ⟨n, place⟩
    | none => i.search count (place - 1)

/-- The power of ten just below or at the value: the greatest `k` with `10 ^ k ≤ value`. -/
def Interval.leadingPlace (i : Interval) : Int :=
  let guess : Int := ((Nat.log2 i.value : Int) + i.unit) * 30103 / 100000
  let fits (k : Int) : Bool := let (s, t) := scales i.unit k; t ≤ i.value * s
  if fits (guess + 1) then guess + 1 else if fits guess then guess else guess - 1

/-- Moves trailing zeros of the digits into the exponent; a natural has fewer digits than
`fuel` allows zeros. -/
def dropZeros : Nat → Digits → Digits
  | 0, d => d
  | fuel + 1, d =>
    if d.digits % 10 = 0 ∧ d.digits ≠ 0 then dropZeros fuel ⟨d.digits / 10, d.exponent + 1⟩ else d

/-- The fewest digits that read back as `mantissa · 2 ^ exponent`; seventeen always suffice. -/
def shortest (mantissa : Nat) (exponent : Int) : Digits :=
  let i := intervalOf mantissa exponent
  dropZeros 20 (i.search 18 i.leadingPlace)

end Digits

/-! ## Writing -/

/-- The decisions of a text format for numbers. -/
structure DecimalStyle where
  /-- The least and the first excluded decimal exponent that are written positionally. -/
  positionalFrom : Int
  positionalBelow : Int
  /-- What an integral number ends in. -/
  integralEnding : List Char
  /-- What stands before an exponent, and how many digits it has at least. -/
  exponentMark : Char
  exponentWidth : Nat
  nanText : String
  infinityText : String

namespace DecimalStyle

/-- Digits as a plain run without a point: `12e3` is `12000`. -/
def padRight (cs : List Char) (width : Nat) : List Char :=
  cs ++ List.replicate (width - cs.length) '0'

def padLeft (cs : List Char) (width : Nat) : List Char :=
  List.replicate (width - cs.length) '0' ++ cs

/-- Digits `d₁d₂…` whose first digit stands at the given decimal exponent, positionally. -/
def positional (style : DecimalStyle) (cs : List Char) (leading : Int) : List Char :=
  if leading < 0 then '0' :: '.' :: (List.replicate ((-leading).toNat - 1) '0' ++ cs)
  else
    let whole := leading.toNat + 1
    if cs.length ≤ whole then padRight cs whole ++ style.integralEnding
    else cs.take whole ++ '.' :: cs.drop whole

/-- The same digits in exponent form. -/
def scientific (style : DecimalStyle) (cs : List Char) (leading : Int) : List Char :=
  let fraction := match cs.drop 1 with
    | [] => []
    | ds => '.' :: ds
  cs.take 1 ++ fraction ++ [style.exponentMark, if leading < 0 then '-' else '+'] ++
    padLeft (natDigits leading.natAbs) style.exponentWidth

/-- Writes a number. -/
def render (style : DecimalStyle) (x : Double) : String :=
  match x.view with
  | .nan => style.nanText
  | .infinite negative => (if negative then "-" else "") ++ style.infinityText
  | .finite negative m e =>
    let sign := if negative then ['-'] else []
    if m = 0 then String.ofList (sign ++ '0' :: style.integralEnding)
    else
      let d := Digits.shortest m e
      let cs := natDigits d.digits
      let leading := d.exponent + cs.length - 1
      let body :=
        if style.positionalFrom ≤ leading ∧ leading < style.positionalBelow then
          style.positional cs leading
        else style.scientific cs leading
      String.ofList (sign ++ body)

end DecimalStyle
end CloudAccess
