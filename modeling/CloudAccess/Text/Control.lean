/-!
# Control sequences

A terminal does not show a control sequence, but does what it says: an escape character and a
bracket, parameters, intermediate characters, and a final character.

* `Text.withoutControls`: a text without its control sequences.
-/

namespace CloudAccess.Text

/-- Digits and the signs between and before numbers. -/
def isControlParameter (c : Char) : Bool := '0' ≤ c && c ≤ '?'

def isControlIntermediate (c : Char) : Bool := ' ' ≤ c && c ≤ '/'

/-- Letters and the signs beside them. -/
def isControlFinal (c : Char) : Bool := '@' ≤ c && c ≤ '~'

/-- What follows a control sequence at the start. -/
def afterControl? : List Char → Option (List Char)
  | '\x1b' :: '[' :: rest =>
    match (rest.dropWhile isControlParameter).dropWhile isControlIntermediate with
    | c :: after => if isControlFinal c then some after else none
    | [] => none
  | _ => none

example : afterControl? "\x1b[1;31mx".toList = some ['x'] := by decide

example : afterControl? "\x1b[3~x".toList = some ['x'] := by decide

example : afterControl? "\x1b[3 1m".toList = none := by decide

theorem afterControl?_length_lt {cs after : List Char} (h : afterControl? cs = some after) :
    after.length < cs.length := by
  unfold afterControl? at h
  split at h
  · rename_i rest
    split at h
    · rename_i c tail hd
      have hl := ((List.dropWhile_sublist isControlIntermediate).trans
        (List.dropWhile_sublist (l := rest) isControlParameter)).length_le
      split at h
      · cases h
        simp only [hd, List.length_cons] at hl ⊢
        omega
      · cases h
    · cases h
  · cases h

/-- The characters that are not part of a control sequence. -/
def leaveControls (cs : List Char) : List Char :=
  match _h : afterControl? cs with
  | some after => leaveControls after
  | none =>
    match cs with
    | [] => []
    | c :: rest => c :: leaveControls rest
termination_by cs.length
decreasing_by
  · exact afterControl?_length_lt _h
  · simp

def withoutControls (s : String) : String := String.ofList (leaveControls s.toList)

end CloudAccess.Text
