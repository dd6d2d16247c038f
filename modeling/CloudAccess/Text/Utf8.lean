import CloudAccess.Text.Hex

/-!
# UTF-8

`Utf8.first` reads one character at the head of a byte list, or says which bytes are wrong and
why.  `Utf8.decode` stops at the first wrong bytes; `Utf8.decodeLossy` writes one replacement
character for them and goes on.
-/

namespace CloudAccess.Text.Utf8

inductive Reason where
  | start | continuation | truncated
deriving DecidableEq

def Reason.message : Reason → String
  | start => "invalid start byte"
  | continuation => "invalid continuation byte"
  | truncated => "unexpected end of data"

/-- What stands at the head of a byte list: a character or wrong bytes, with the number of
bytes after the first that belong to it. -/
inductive Head where
  | char (c : Char) (more : Nat)
  | wrong (reason : Reason) (more : Nat)
deriving DecidableEq

def isContinuation (b : UInt8) : Bool := 0x80 ≤ b && b < 0xC0

/-- Whether `b` may follow a lead byte; after some the range is smaller, so that no character
has two encodings and none is half of a surrogate pair or beyond the last code point. -/
def maySecond (lead b : UInt8) : Bool :=
  isContinuation b &&
    !(lead = 0xE0 && b < 0xA0) && !(lead = 0xED && 0xA0 ≤ b) &&
    !(lead = 0xF0 && b < 0x90) && !(lead = 0xF4 && 0x90 ≤ b)

/-- The payload bits of a continuation byte. -/
def payload (b : UInt8) : Nat := b.toNat % 64

/-- Reads the bytes after a lead byte of a two-, three- or four-byte character. -/
def first (lead : UInt8) (rest : List UInt8) : Head :=
  if lead < 0x80 then .char (Char.ofNat lead.toNat) 0
  else if lead < 0xC2 then .wrong .start 0
  else if lead < 0xE0 then
    match rest with
    | [] => .wrong .truncated 0
    | a :: _ =>
      if isContinuation a then .char (Char.ofNat ((lead.toNat - 0xC0) * 64 + payload a)) 1
      else .wrong .continuation 0
  else if lead < 0xF0 then
    match rest with
    | [] => .wrong .truncated 0
    | a :: rest =>
      if !maySecond lead a then .wrong .continuation 0
      else match rest with
        | [] => .wrong .truncated 1
        | b :: _ =>
          if isContinuation b then
            .char (Char.ofNat (((lead.toNat - 0xE0) * 64 + payload a) * 64 + payload b)) 2
          else .wrong .continuation 1
  else if lead < 0xF5 then
    match rest with
    | [] => .wrong .truncated 0
    | a :: rest =>
      if !maySecond lead a then .wrong .continuation 0
      else match rest with
        | [] => .wrong .truncated 1
        | b :: rest =>
          if !isContinuation b then .wrong .continuation 1
          else match rest with
            | [] => .wrong .truncated 2
            | c :: _ =>
              if isContinuation c then
                .char (Char.ofNat ((((lead.toNat - 0xF0) * 64 + payload a) * 64 + payload b) * 64
                  + payload c)) 3
              else .wrong .continuation 2
  else .wrong .start 0

/-! ## Whole texts -/

/-- Wrong bytes in a text: the first, its place, and how many follow it. -/
structure Flaw where
  byte : UInt8
  position : Nat
  more : Nat
  reason : Reason
deriving DecidableEq

def Flaw.message (f : Flaw) : String :=
  let reason := f.reason.message
  if f.more = 0 then
    let digits := String.ofList (hexDigits 2 f.byte.toNat)
    s!"'utf-8' codec can't decode byte 0x{digits} in position {f.position}: {reason}"
  else
    let last := f.position + f.more
    s!"'utf-8' codec can't decode bytes in position {f.position}-{last}: {reason}"

/-- Reads bytes after skipping some, at a place in the text. -/
def decodeFrom (position : Nat) : Nat → List UInt8 → Except Flaw (List Char)
  | _, [] => .ok []
  | skipped + 1, _ :: rest => decodeFrom (position + 1) skipped rest
  | 0, b :: rest =>
    match first b rest with
    | .wrong reason more => .error ⟨b, position, more, reason⟩
    | .char c more => (decodeFrom (position + 1) more rest).map (c :: ·)

/-- The text of bytes, or the first wrong ones. -/
def decode (bytes : List UInt8) : Except Flaw (List Char) := decodeFrom 0 0 bytes

/-- Reads bytes after skipping some; wrong ones become a replacement character. -/
def lossyFrom : Nat → List UInt8 → List Char
  | _, [] => []
  | skipped + 1, _ :: rest => lossyFrom skipped rest
  | 0, b :: rest =>
    match first b rest with
    | .wrong _ more => Char.ofNat 0xFFFD :: lossyFrom more rest
    | .char c more => c :: lossyFrom more rest

/-- The text of bytes, wrong ones replaced. -/
def decodeLossy (bytes : List UInt8) : List Char := lossyFrom 0 bytes

/-- The bytes of a text. -/
def encode (s : String) : List UInt8 := s.toUTF8.toList

/-! ## Lines -/

/-- Ends every line with a line feed, whether a carriage return stood before it or in its
place. -/
def unifyNewlines : List Char → List Char
  | [] => []
  | '\r' :: '\n' :: rest => '\n' :: unifyNewlines rest
  | '\r' :: rest => '\n' :: unifyNewlines rest
  | c :: rest => c :: unifyNewlines rest

end CloudAccess.Text.Utf8
