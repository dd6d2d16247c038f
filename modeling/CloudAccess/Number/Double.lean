import CloudAccess.Number.Power

/-!
# Binary64 numbers, held as bit patterns

A `Double` is the 64-bit pattern of a binary floating-point number, so equality of two
`Double`s is decidable and means the same pattern.  Everything else is exact integer arithmetic:

* `Double.view` reads a pattern as a NaN, an infinity or `± mantissa · 2 ^ exponent`;
* `Double.ofRatio` is the pattern nearest to a ratio of naturals, ties to the even pattern;
* `Double.rank?` is an integer that orders all numbers but the NaNs.
-/

namespace CloudAccess

/-- A binary floating-point number of 64 bits. -/
structure Double where
  bits : UInt64
deriving DecidableEq, Inhabited

namespace Double

/-! ## Reading a pattern -/

/-- What a pattern stands for; a finite number is `± mantissa · 2 ^ exponent`. -/
inductive View where
  | nan
  | infinite (negative : Bool)
  | finite (negative : Bool) (mantissa : Nat) (exponent : Int)
deriving DecidableEq

/-- The pattern without its sign bit. -/
def magnitude (x : Double) : Nat := x.bits.toNat % twoPow 63

def isNegative (x : Double) : Bool := twoPow 63 ≤ x.bits.toNat

def view (x : Double) : View :=
  let field : Nat := x.magnitude / twoPow 52
  let fraction : Nat := x.magnitude % twoPow 52
  if field = 2047 then
    if fraction = 0 then .infinite x.isNegative else .nan
  else if field = 0 then .finite x.isNegative fraction (-1074)
  else .finite x.isNegative (twoPow 52 + fraction) ((field : Int) - 1075)

def isNaN (x : Double) : Bool := x.view = .nan

/-- Both zeros count as zero. -/
def isZero (x : Double) : Bool := x.magnitude = 0

/-! ## Building a pattern -/

/-- The pattern with the given sign and the given pattern of its magnitude. -/
def ofMagnitude (negative : Bool) (pattern : Nat) : Double :=
  ⟨UInt64.ofNat (pattern + if negative then twoPow 63 else 0)⟩

def infinity (negative : Bool) : Double := ofMagnitude negative (2047 * twoPow 52)

def zero (negative : Bool) : Double := ofMagnitude negative 0

def quietNaN : Double := ofMagnitude false (2047 * twoPow 52 + twoPow 51)

/-- A quotient rounded to the nearest natural, a half going to the even neighbour. -/
def roundHalfEven (num den : Nat) : Nat :=
  let q := num / den
  let r := num % den
  if 2 * r < den then q
  else if den < 2 * r then q + 1
  else if q % 2 = 0 then q else q + 1

/-- `num / den` in units of `2 ^ exponent`, rounded half to even. -/
def scaled (num den : Nat) (exponent : Int) : Nat :=
  if 0 ≤ exponent then roundHalfEven num (den * twoPow exponent.toNat)
  else roundHalfEven (num * twoPow (-exponent).toNat) den

/-- The exponent at which `num / den` has a 53-bit integer part, and at least that of the
smallest subnormal number. -/
def unitExponent (num den : Nat) : Int :=
  let guess : Int := (Nat.log2 num : Int) - (Nat.log2 den : Int) - 52
  let full : Bool :=
    if 0 ≤ guess then den * twoPow guess.toNat * twoPow 52 ≤ num
    else den * twoPow 52 ≤ num * twoPow (-guess).toNat
  max (if full then guess else guess - 1) (-1074)

/-- The number nearest to `± num / den` (with `den` positive); too large a ratio is an
infinity.  The rounded mantissa is added to the exponent's place in the pattern, so that a
mantissa that rounds up to `2 ^ 53` carries into the next exponent. -/
def ofRatio (negative : Bool) (num den : Nat) : Double :=
  if num = 0 then zero negative
  else
    let e := unitExponent num den
    let pattern := (e + 1074).toNat * twoPow 52 + scaled num den e
    if 2047 * twoPow 52 ≤ pattern then infinity negative else ofMagnitude negative pattern

/-- The number nearest to an integer, or nothing when that is an infinity. -/
def ofInt? (n : Int) : Option Double :=
  let x := ofRatio (n < 0) n.natAbs 1
  if x.magnitude = 2047 * twoPow 52 then none else some x

/-! ## Order and integer value -/

/-- An integer that grows with the number; a NaN has none and both zeros have the same. -/
def rank? (x : Double) : Option Int :=
  if x.isNaN then none
  else some (if x.isNegative then -(x.magnitude : Int) else x.magnitude)

/-- Numeric equality: no NaN equals anything, and the two zeros are equal. -/
def numEq (x y : Double) : Bool :=
  match x.rank?, y.rank? with
  | some a, some b => a = b
  | _, _ => false

def numLt (x y : Double) : Bool :=
  match x.rank?, y.rank? with
  | some a, some b => a < b
  | _, _ => false

def numLe (x y : Double) : Bool :=
  match x.rank?, y.rank? with
  | some a, some b => a ≤ b
  | _, _ => false

/-- How a number compares to an integer, exactly; a NaN does not. -/
def compareInt? (x : Double) (n : Int) : Option Ordering :=
  match x.view with
  | .nan => none
  | .infinite negative => some (if negative then .lt else .gt)
  | .finite negative m e =>
    let size : Int := if negative then -(m : Int) else m
    some (if 0 ≤ e then compare (size * twoPow e.toNat) n
      else compare size (n * twoPow (-e).toNat))

/-- The integer that a finite number with no fractional part equals. -/
def toInt? (x : Double) : Option Int :=
  match x.view with
  | .finite negative m e =>
    let size : Option Nat :=
      if 0 ≤ e then some (m * twoPow e.toNat)
      else if m % twoPow (-e).toNat = 0 then some (m / twoPow (-e).toNat) else none
    size.map fun k => if negative then -(k : Int) else k
  | _ => none

/-- The integer part of a finite number, toward zero. -/
def truncate? (x : Double) : Option Int :=
  match x.view with
  | .finite negative m e =>
    let size := if 0 ≤ e then m * twoPow e.toNat else m / twoPow (-e).toNat
    some (if negative then -(size : Int) else size)
  | _ => none

end Double
end CloudAccess
