import CloudAccess.Text.Hex
import CloudAccess.Text.Utf8

/-!
# Percent-encoding

In each run of ASCII characters, `%XX` is a byte and every other character the byte of its own
code; the bytes of a run are then read as UTF-8.  A `%` without two hexadecimal digits after it
stands for itself, and so does `+`.
-/

namespace CloudAccess.Text.Percent

/-- The byte that two hexadecimal digits denote. -/
def byte? (a b : Char) : Option UInt8 :=
  match hexValue? a, hexValue? b with
  | some m, some n => some (UInt8.ofNat (16 * m + n))
  | _, _ => none

/-- The bytes of a run of ASCII characters. -/
def runBytes : List Char → List UInt8
  | '%' :: a :: b :: rest =>
    match byte? a b with
    | some x => x :: runBytes rest
    | none => 37 :: runBytes (a :: b :: rest)
  | c :: rest => UInt8.ofNat c.toNat :: runBytes rest
  | [] => []

def isAscii (c : Char) : Bool := c.toNat < 128

/-- Decodes run after run; `run` holds the characters of the present one, last first. -/
def decodeFrom (run : List Char) : List Char → List Char
  | [] => Utf8.decodeLossy (runBytes run.reverse)
  | c :: rest =>
    if isAscii c then decodeFrom (c :: run) rest
    else Utf8.decodeLossy (runBytes run.reverse) ++ c :: decodeFrom [] rest

/-- The text that a percent-encoded text stands for. -/
def decode (s : String) : String := String.ofList (decodeFrom [] s.toList)

end CloudAccess.Text.Percent
