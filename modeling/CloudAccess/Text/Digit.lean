import CloudAccess.Text.Ranges

/-!
# Digits of every script

Decimal digits come in runs of ten that start with a zero (Unicode character database,
version 14); some other characters count as digits without having a decimal value.
-/

namespace CloudAccess.Text

/-- The decimal digits; each range is one or more runs from zero to nine. -/
def decimalRuns : Ranges := [
  (48, 57), (1632, 1641), (1776, 1785), (1984, 1993), (2406, 2415), (2534, 2543), (2662, 2671),
  (2790, 2799), (2918, 2927), (3046, 3055), (3174, 3183), (3302, 3311), (3430, 3439),
  (3558, 3567), (3664, 3673), (3792, 3801), (3872, 3881), (4160, 4169), (4240, 4249),
  (6112, 6121), (6160, 6169), (6470, 6479), (6608, 6617), (6784, 6793), (6800, 6809),
  (6992, 7001), (7088, 7097), (7232, 7241), (7248, 7257), (42528, 42537), (43216, 43225),
  (43264, 43273), (43472, 43481), (43504, 43513), (43600, 43609), (44016, 44025), (65296, 65305),
  (66720, 66729), (68912, 68921), (69734, 69743), (69872, 69881), (69942, 69951), (70096, 70105),
  (70384, 70393), (70736, 70745), (70864, 70873), (71248, 71257), (71360, 71369), (71472, 71481),
  (71904, 71913), (72016, 72025), (72784, 72793), (73040, 73049), (73120, 73129), (92768, 92777),
  (92864, 92873), (93008, 93017), (120782, 120831), (123200, 123209), (123632, 123641),
  (125264, 125273), (130032, 130041)]

/-- Digits that are not decimal digits, such as superscripts. -/
def otherDigits : Ranges := [
  (178, 179), (185, 185), (4969, 4977), (6618, 6618), (8304, 8304), (8308, 8313), (8320, 8329),
  (9312, 9320), (9332, 9340), (9352, 9360), (9450, 9450), (9461, 9469), (9471, 9471),
  (10102, 10110), (10112, 10120), (10122, 10130), (68160, 68163), (69216, 69224), (69714, 69722),
  (127232, 127242)]

/-- The value of a decimal digit of any script. -/
def decimalValue? (c : Char) : Option Nat :=
  (decimalRuns.find? fun (lo, hi) => lo ≤ c.toNat && c.toNat ≤ hi).map
    fun (lo, _) => (c.toNat - lo) % 10

def isDecimal (c : Char) : Bool := (decimalValue? c).isSome

/-- Whether a character counts as a digit, decimal or not. -/
def isAnyDigit (c : Char) : Bool := isDecimal c || otherDigits.holds c.toNat

example : decimalValue? '7' = some 7 ∧ decimalValue? '٣' = some 3 ∧ decimalValue? '²' = none := by
  decide

/-! ## Blank characters around a numeral -/

/-- White space that may surround a numeral. -/
def blankRuns : Ranges := [
  (9, 13), (32, 32), (133, 133), (160, 160), (5760, 5760), (8192, 8202), (8232, 8233),
  (8239, 8239), (8287, 8287), (12288, 12288)]

def isBlank (c : Char) : Bool := blankRuns.holds c.toNat

/-- Removes the blanks at both ends. -/
def trim (cs : List Char) : List Char :=
  ((cs.dropWhile isBlank).reverse.dropWhile isBlank).reverse

end CloudAccess.Text
