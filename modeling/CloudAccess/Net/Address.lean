import CloudAccess.Number.Decimal
import CloudAccess.Text.Hex
import CloudAccess.Text.Split

/-!
# Internet addresses and networks

* An `Address` is a number of 32 bits (version 4) or 128 bits (version 6).
* A `Network` is an address and the number of leading bits that its members share with it.
* `Network.has` is false for an address of the other version.

Version 4: four decimal fields without leading zeros; a mask is a number of bits, a netmask or
the complement of one.  Version 6: groups of hexadecimal digits, one `::`, a version 4 address
as the last two groups, and a `%` with a scope that is not kept.
-/

namespace CloudAccess

inductive Address where
  | v4 (bits : Nat)
  | v6 (bits : Nat)
deriving DecidableEq

namespace Address

/-- One field of a version 4 address. -/
def octet? (cs : List Char) : Option Nat :=
  if cs = [] ∨ 3 < cs.length ∨ ¬ cs.all Char.isDigit then none
  else if cs ≠ ['0'] ∧ cs.head? = some '0' then none
  else
    let n := natOfDigits cs
    if n ≤ 255 then some n else none

/-- The 32 bits of a version 4 address. -/
def bits4? (cs : List Char) : Option Nat :=
  match (Text.fields '.' cs).map octet? with
  | [some a, some b, some c, some d] => some (((a * 256 + b) * 256 + c) * 256 + d)
  | _ => none

/-- One group of a version 6 address. -/
def group? (cs : List Char) : Option Nat :=
  if cs = [] ∨ 4 < cs.length then none
  else cs.foldlM (fun n c => (Text.hexValue? c).map (16 * n + ·)) 0

/-- The number that groups of sixteen bits make. -/
def joinGroups (groups : List Nat) : Nat := groups.foldl (fun n g => 65536 * n + g) 0

/-- The groups of a version 6 address, where a version 4 address at the end makes two. -/
def groups? (cs : List Char) : Option (List (List Char)) :=
  let parts := Text.fields ':' cs
  if parts.length < 3 then none
  else match parts.getLast? with
    | none => none
    | some last =>
      if last.contains '.' then
        (bits4? last).map fun n =>
          parts.dropLast ++ [Nat.toDigits 16 (n / 65536), Nat.toDigits 16 (n % 65536)]
      else some parts

/-- Cuts the groups at the empty one inside that `::` leaves; there may be at most one. -/
def gaps (parts : List (List Char)) : List Nat :=
  (List.range parts.length).filter fun i =>
    1 ≤ i && i + 1 < parts.length && parts[i]? = some []

/-- An empty first or last group stands only beside the gap. -/
def besideGap? (side : List (List Char)) (outer : Option (List Char)) :
    Option (List (List Char)) :=
  if outer = some [] then (if side.length = 1 then some [] else none) else some side

/-- The 128 bits of a version 6 address without scope. -/
def bits6? (cs : List Char) : Option Nat := do
  let parts ← groups? cs
  if 9 < parts.length then none
  else match gaps parts with
    | [] =>
      if parts.length = 8 then (parts.mapM group?).map joinGroups else none
    | [i] =>
      let high ← besideGap? (parts.take i) parts.head?
      let low ← besideGap? (parts.drop (i + 1)) parts.getLast?
      if 8 ≤ high.length + low.length then none
      else
        let high ← high.mapM group?
        let low ← low.mapM group?
        some (joinGroups (high ++ List.replicate (8 - (high.length + low.length)) 0 ++ low))
    | _ => none

/-- The address before a scope; a scope is not empty and holds no further `%`. -/
def dropScope? (cs : List Char) : Option (List Char) :=
  match Text.cut? '%' cs with
  | none => some cs
  | some (before, scope) => if scope = [] ∨ scope.contains '%' then none else some before

def v6? (cs : List Char) : Option Nat := (dropScope? cs).bind bits6?

/-- Reads an address. -/
def ofText? (s : String) : Option Address :=
  let cs := s.toList
  if cs.contains '/' then none
  else match bits4? cs with
    | some n => some (.v4 n)
    | none => (v6? cs).map .v6

end Address

/-- The addresses that agree with `base` in the first `length` bits. -/
structure Network where
  base : Address
  length : Nat
deriving DecidableEq

namespace Network

/-- The number of leading ones of a 32-bit number that has no other ones. -/
def onesLength? (bits : Nat) : Option Nat :=
  (List.range 33).find? fun n => bits = twoPow 32 - twoPow (32 - n)

/-- The length a mask stands for: a number of bits, or for version 4 also a netmask or the
complement of one. -/
def maskLength4? (cs : List Char) : Option Nat :=
  if cs ≠ [] ∧ cs.all Char.isDigit ∧ natOfDigits cs ≤ 32 then some (natOfDigits cs)
  else match Address.bits4? cs with
    | none => none
    | some bits => match onesLength? bits with
      | some n => some n
      | none => onesLength? (twoPow 32 - 1 - bits)

def maskLength6? (cs : List Char) : Option Nat :=
  if cs ≠ [] ∧ cs.all Char.isDigit ∧ natOfDigits cs ≤ 128 then some (natOfDigits cs) else none

/-- Reads a network; a single address is a network of its own. -/
def ofText? (s : String) : Option Network :=
  match Text.fields '/' s.toList with
  | [address] => network4 address none <|> network6 address none
  | [address, mask] => network4 address (some mask) <|> network6 address (some mask)
  | _ => none
where
  network4 (address : List Char) (mask : Option (List Char)) : Option Network := do
    let bits ← Address.bits4? address
    let length ← match mask with
      | none => some 32
      | some m => maskLength4? m
    some ⟨.v4 bits, length⟩
  network6 (address : List Char) (mask : Option (List Char)) : Option Network := do
    let bits ← Address.v6? address
    let length ← match mask with
      | none => some 128
      | some m => maskLength6? m
    some ⟨.v6 bits, length⟩

/-- Whether an address belongs to a network. -/
def has (n : Network) : Address → Bool
  | .v4 bits => match n.base with
    | .v4 base => bits / twoPow (32 - n.length) = base / twoPow (32 - n.length)
    | .v6 _ => false
  | .v6 bits => match n.base with
    | .v4 _ => false
    | .v6 base => bits / twoPow (128 - n.length) = base / twoPow (128 - n.length)

end Network
end CloudAccess
