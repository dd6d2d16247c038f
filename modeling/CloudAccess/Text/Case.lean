import CloudAccess.Text.CaseTables

/-!
# Lower and upper case

Full case maps on text: a character may become several (`ß` is `SS` in upper case), and a
capital sigma becomes a final sigma where a word ends.
-/

namespace CloudAccess.Text

/-- The entry of a run table that covers a code point, applied to it. -/
def mapByRuns (runs : List (Nat × Nat × Nat × Int)) (n : Nat) : Nat :=
  match runs.find? fun (lo, hi, stride, _) => lo ≤ n && n ≤ hi && (n - lo) % stride = 0 with
  | some (_, _, _, shift) => ((n : Int) + shift).toNat
  | none => n

/-- Lower case of a character where its surroundings do not matter. -/
def lowerChar (c : Char) : List Char :=
  if c.toNat < 128 then [c.toLower]
  else if c = 'İ' then ['i', Char.ofNat 0x307]
  else [Char.ofNat (mapByRuns CaseTables.lowerRuns c.toNat)]

/-- Upper case of a character. -/
def upperChar (c : Char) : List Char :=
  if c.toNat < 128 then [c.toUpper]
  else match CaseTables.upperLong.lookup c.toNat with
    | some ns => ns.map Char.ofNat
    | none => [Char.ofNat (mapByRuns CaseTables.upperRuns c.toNat)]

/-- Whether the first character that is not passed over has a case. -/
def meetsCased (cs : List Char) : Bool :=
  match cs.dropWhile fun c => CaseTables.ignorable.holds c.toNat with
  | [] => false
  | c :: _ => CaseTables.cased.holds c.toNat

/-- Lower case of the characters `cs` that follow `before`, the latter in reverse order.  A
capital sigma is final when a cased letter precedes it and none follows. -/
def lowerFrom (before : List Char) : List Char → List Char
  | [] => []
  | c :: rest =>
    let here :=
      if c = 'Σ' then (if meetsCased before && !meetsCased rest then ['ς'] else ['σ'])
      else lowerChar c
    here ++ lowerFrom (c :: before) rest

/-- Lower case of a text. -/
def lower (s : String) : String := String.ofList (lowerFrom [] s.toList)

/-- Upper case of a text. -/
def upper (s : String) : String := String.ofList (s.toList.flatMap upperChar)

end CloudAccess.Text
