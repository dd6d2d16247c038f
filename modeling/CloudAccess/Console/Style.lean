import CloudAccess.Fault
import CloudAccess.Text.Case
import CloudAccess.Text.Split

/-!
# Console text

How answers are shown to people: lines of text with colour marks, tables and trees.
-/

namespace CloudAccess

namespace Console

structure Table where
  title : String
  columns : List String
  rows : List (List String)

inductive Tree where
  | node (label : String) (children : List Tree)

/-- What is shown at once. -/
inductive Item where
  | line (text : String)
  | table (t : Table)
  | tree (t : Tree)

/-! ## Cells -/

/-- The characters up to an end; a negative end counts from the last character. -/
def upTo (cs : List Char) (stop : Int) : List Char :=
  if stop < 0 then cs.take (cs.length + stop).toNat else cs.take stop.toNat

/-- A value as text of at most so many characters, the end of a longer one replaced. -/
def shorten (v : Json) (width : Int) (ending : String) : String :=
  let cs := if v.isBlank then [] else v.shown.toList
  if (cs.length : Int) ≤ width then String.ofList cs
  else String.ofList (upTo cs (width - ending.toList.length)) ++ ending

/-- What replaces the end of a text that is too long. -/
def ellipsis : String := ".."

/-- The colours of severities. -/
def severityColors : List (String × String) := [
  ("CRITICAL", "red"),
  ("HIGH", "orange1"),
  ("MEDIUM", "yellow"),
  ("LOW", "blue"),
  ("INFO", "dim"),
  ("WARNING", "yellow")]

/-- A severity in its colour; what is not known is white. -/
def severity (name : String) : String :=
  let upper := Text.upper name
  let color := (severityColors.lookup upper).getD "white"
  s!"[{color}]{upper}[/{color}]"

/-- The severity that a value names. -/
def severityOf : Json → Except Fault String
  | .str name => .ok (severity name)
  | v => .error (.noOperation v.kind "upper")

end Console
end CloudAccess
