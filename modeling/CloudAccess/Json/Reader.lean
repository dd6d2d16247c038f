import CloudAccess.Json.Basic
import CloudAccess.Number.Decimal
import CloudAccess.Text.Hex

/-!
# Reading JSON text

`Json.read` turns a text into a value or says what is wrong and where.  Readers take the
characters that are left and return those that follow what they read; a flaw is located by the
number of characters left at it.

Besides the standard grammar, `NaN`, `Infinity` and `-Infinity` are numbers.  A member named
twice keeps its first place and its last value.  An integer of more than 4300 digits is refused.
-/

namespace CloudAccess.Json

/-! ## Errors -/

/-- What is wrong with a text that is not JSON. -/
inductive Flaw where
  | value | name | colon | comma | unterminated | control | escape | unicodeEscape
  | extra | byteOrderMark
deriving DecidableEq

def Flaw.message : Flaw → String
  | value => "Expecting value"
  | name => "Expecting property name enclosed in double quotes"
  | colon => "Expecting ':' delimiter"
  | comma => "Expecting ',' delimiter"
  | unterminated => "Unterminated string starting at"
  | control => "Invalid control character at"
  | escape => "Invalid \\escape"
  | unicodeEscape => "Invalid \\uXXXX escape"
  | extra => "Extra data"
  | byteOrderMark => "Unexpected UTF-8 BOM (decode using utf-8-sig)"

/-- Why reading stopped: at a flaw with so many characters left, or at an integer with too
many digits. -/
inductive Stop where
  | flaw (flaw : Flaw) (left : Nat)
  | oversized (digits : Nat)
deriving DecidableEq

/-- A flaw and its place: lines and columns count from one, the offset from zero. -/
structure Position where
  line : Nat
  column : Nat
  offset : Nat
deriving DecidableEq

/-- The place where `left` characters of a text are left. -/
def positionOf (text : List Char) (left : Nat) : Position :=
  let offset := text.length - left
  let before := text.take offset
  { line := before.count '\n' + 1
    column := (before.reverse.takeWhile (· ≠ '\n')).length + 1
    offset }

/-- Why a text could not be read. -/
inductive ReadError where
  | malformed (flaw : Flaw) (position : Position)
  | oversized (digits : Nat)
deriving DecidableEq

def oversizedMessage (digits : Nat) : String :=
  s!"Exceeds the limit ({integerDigits} digits) for integer string conversion: " ++
    s!"value has {digits} digits; " ++
    "use sys.set_int_max_str_digits() to increase the limit"

def ReadError.message : ReadError → String
  | malformed flaw p => s!"{flaw.message}: line {p.line} column {p.column} (char {p.offset})"
  | oversized digits => oversizedMessage digits

/-! ## Blanks, strings and numbers -/

def isBlankChar (c : Char) : Bool := c = ' ' || c = '\t' || c = '\n' || c = '\r'

/-- The characters after leading blanks. -/
def skip (cs : List Char) : List Char := cs.dropWhile isBlankChar

/-- The value of four hexadecimal digits. -/
def hexFour? (a b c d : Char) : Option Nat :=
  match Text.hexValue? a, Text.hexValue? b, Text.hexValue? c, Text.hexValue? d with
  | some a, some b, some c, some d => some (((a * 16 + b) * 16 + c) * 16 + d)
  | _, _, _, _ => none

def isHighSurrogate (n : Nat) : Bool := 0xD800 ≤ n && n < 0xDC00

def isLowSurrogate (n : Nat) : Bool := 0xDC00 ≤ n && n < 0xE000

/-- The character of a 16-bit unit; half of a pair that stands alone becomes the replacement
character. -/
def unitChar (n : Nat) : Char :=
  if isHighSurrogate n || isLowSurrogate n then Char.ofNat 0xFFFD else Char.ofNat n

/-- The character of a pair of 16-bit units. -/
def joinHalves (high low : Nat) : Char :=
  Char.ofNat ((high - 0xD800) * 0x400 + (low - 0xDC00) + 0x10000)

/-- What the letter after a backslash stands for. -/
def shortEscape? : Char → Option Char
  | '"' => some '"'
  | '\\' => some '\\'
  | '/' => some '/'
  | 'b' => some (Char.ofNat 8)
  | 'f' => some (Char.ofNat 12)
  | 'n' => some '\n'
  | 'r' => some '\r'
  | 't' => some '\t'
  | _ => none

/-- The rest of a string whose opening quote stands at the head of `start`. -/
def stringFrom (start : List Char) : List Char → Except Stop (List Char × List Char)
  | [] => .error (.flaw .unterminated start.length)
  | '"' :: rest => .ok ([], rest)
  | ['\\'] => .error (.flaw .unterminated start.length)
  | '\\' :: 'u' :: a :: b :: c :: d :: x :: rest =>
    match hexFour? a b c d with
    | none => .error (.flaw .unicodeEscape (rest.length + 6))
    | some n =>
      match x, rest with
      | '\\', 'u' :: e :: f :: g :: h :: y :: after =>
        if isHighSurrogate n then
          match hexFour? e f g h with
          | none => .error (.flaw .unicodeEscape (after.length + 6))
          | some m =>
            if isLowSurrogate m then do
              let (s, out) ← stringFrom start (y :: after)
              .ok (joinHalves n m :: s, out)
            else do
              let (s, out) ← stringFrom start ('\\' :: 'u' :: e :: f :: g :: h :: y :: after)
              .ok (unitChar n :: s, out)
        else do
          let (s, out) ← stringFrom start ('\\' :: 'u' :: e :: f :: g :: h :: y :: after)
          .ok (unitChar n :: s, out)
      | x, rest => do
        let (s, out) ← stringFrom start (x :: rest)
        .ok (unitChar n :: s, out)
  | '\\' :: 'u' :: rest => .error (.flaw .unicodeEscape (rest.length + 1))
  | '\\' :: e :: rest =>
    match shortEscape? e with
    | none => .error (.flaw .escape (rest.length + 2))
    | some c => do
      let (s, out) ← stringFrom start rest
      .ok (c :: s, out)
  | c :: rest =>
    if c.toNat < 32 then .error (.flaw .control (rest.length + 1))
    else do
      let (s, out) ← stringFrom start rest
      .ok (c :: s, out)
termination_by structural cs => cs

def isDigit (c : Char) : Bool := '0' ≤ c && c ≤ '9'

/-- The integer part: a zero alone, or digits that start with another one. -/
def wholePart? : List Char → Option (List Char × List Char)
  | '0' :: rest => some (['0'], rest)
  | cs =>
    match cs.takeWhile isDigit with
    | [] => none
    | ds => some (ds, cs.dropWhile isDigit)

/-- Digits after a point; none when no digit follows one. -/
def fractionPart : List Char → List Char × List Char
  | '.' :: rest =>
    match rest.takeWhile isDigit with
    | [] => ([], '.' :: rest)
    | ds => (ds, rest.dropWhile isDigit)
  | cs => ([], cs)

/-- An exponent with at least one digit. -/
def exponentPart (cs : List Char) : Option Int × List Char :=
  match cs with
  | e :: rest =>
    if e = 'e' || e = 'E' then
      let (negative, ds) := match rest with
        | '-' :: r => (true, r)
        | '+' :: r => (false, r)
        | r => (false, r)
      match ds.takeWhile isDigit with
      | [] => (none, cs)
      | digits =>
        let n : Int := natOfDigits digits
        (some (if negative then -n else n), ds.dropWhile isDigit)
    else (none, cs)
  | [] => (none, cs)

/-- A number after its sign; `start` is what was left at its start. -/
def unsigned (negative : Bool) (start cs : List Char) : Except Stop (Json × List Char) :=
  match wholePart? cs with
  | none => .error (.flaw .value start.length)
  | some (whole, rest) =>
    let (fraction, rest) := fractionPart rest
    let (exponent, rest) := exponentPart rest
    if fraction.isEmpty && exponent.isNone then
      if integerDigits < whole.length then .error (.oversized whole.length)
      else
        let n : Int := natOfDigits whole
        .ok (.int (if negative then -n else n), rest)
    else
      let digits := natOfDigits (whole ++ fraction)
      .ok (.float (.ofDecimal negative digits (exponent.getD 0 - fraction.length)), rest)

/-! ## Values -/

mutual
/-- A value at the start of the characters.  Every second call reads a character, so that fuel of
twice their number suffices. -/
def value : Nat → List Char → Except Stop (Json × List Char)
  | 0, cs => .error (.flaw .value cs.length)
  | fuel + 1, cs =>
    match cs with
    | '"' :: rest => do
      let (s, out) ← stringFrom cs rest
      .ok (.str (String.ofList s), out)
    | '{' :: rest =>
      match skip rest with
      | '}' :: out => .ok (.obj [], out)
      | rest => do
        let (ms, out) ← members fuel rest
        .ok (.obj (ms.foldl (fun seen (n, v) => setMember n v seen) []), out)
    | '[' :: rest =>
      match skip rest with
      | ']' :: out => .ok (.arr [], out)
      | rest => do
        let (vs, out) ← items fuel rest
        .ok (.arr vs, out)
    | 'n' :: 'u' :: 'l' :: 'l' :: out => .ok (.null, out)
    | 't' :: 'r' :: 'u' :: 'e' :: out => .ok (.bool true, out)
    | 'f' :: 'a' :: 'l' :: 's' :: 'e' :: out => .ok (.bool false, out)
    | 'N' :: 'a' :: 'N' :: out => .ok (.float .quietNaN, out)
    | 'I' :: 'n' :: 'f' :: 'i' :: 'n' :: 'i' :: 't' :: 'y' :: out =>
      .ok (.float (.infinity false), out)
    | '-' :: 'I' :: 'n' :: 'f' :: 'i' :: 'n' :: 'i' :: 't' :: 'y' :: out =>
      .ok (.float (.infinity true), out)
    | '-' :: rest => unsigned true cs rest
    | _ => unsigned false cs cs

/-- The members of an object up to its closing brace. -/
def members : Nat → List Char → Except Stop (List (String × Json) × List Char)
  | 0, cs => .error (.flaw .name cs.length)
  | fuel + 1, cs =>
    match cs with
    | '"' :: rest => do
      let (n, rest) ← stringFrom cs rest
      match skip rest with
      | ':' :: rest =>
        let (v, rest) ← value fuel (skip rest)
        match skip rest with
        | '}' :: out => .ok ([(String.ofList n, v)], out)
        | ',' :: rest =>
          let (ms, out) ← members fuel (skip rest)
          .ok ((String.ofList n, v) :: ms, out)
        | rest => .error (.flaw .comma rest.length)
      | rest => .error (.flaw .colon rest.length)
    | _ => .error (.flaw .name cs.length)

/-- The items of a list up to its closing bracket. -/
def items : Nat → List Char → Except Stop (List Json × List Char)
  | 0, cs => .error (.flaw .value cs.length)
  | fuel + 1, cs => do
    let (v, rest) ← value fuel cs
    match skip rest with
    | ']' :: out => .ok ([v], out)
    | ',' :: rest =>
      let (vs, out) ← items fuel (skip rest)
      .ok (v :: vs, out)
    | rest => .error (.flaw .comma rest.length)
end

/-- A whole text: one value with nothing but blanks around it. -/
def document (cs : List Char) : Except Stop Json :=
  match cs with
  | '\ufeff' :: _ => .error (.flaw .byteOrderMark cs.length)
  | _ => do
    let (v, rest) ← value (2 * cs.length + 2) (skip cs)
    match skip rest with
    | [] => .ok v
    | rest => .error (.flaw .extra rest.length)

/-- Reads a JSON text. -/
def read (text : String) : Except ReadError Json :=
  let cs := text.toList
  match document cs with
  | .ok v => .ok v
  | .error (.flaw flaw left) => .error (.malformed flaw (positionOf cs left))
  | .error (.oversized digits) => .error (.oversized digits)

end CloudAccess.Json
