import CloudAccess.Json.Display
import CloudAccess.Time.Calendar

/-!
# Points in time

A `Timestamp` is a day, a time of that day in microseconds and, if known, the offset of its
clock from universal time.  Two timestamps are compared by `Timestamp.instant`, the microseconds
since the start of 1970; a clock of unknown offset counts as universal time.

* `Timestamp.iso` writes a timestamp in ISO form;
* `Timestamp.ofIso` (in `CloudAccess.Time.Iso`) reads that and the other ISO forms.
-/

namespace CloudAccess

structure Timestamp where
  /-- The number of the day, see `CloudAccess.Calendar`. -/
  day : Nat
  /-- Microseconds since midnight. -/
  micros : Nat
  /-- Microseconds that the clock is ahead of universal time. -/
  offset : Option Int
deriving DecidableEq

namespace Timestamp

def microsPerSecond : Nat := 1000000

def microsPerDay : Nat := 86400 * microsPerSecond

/-- The number of the first day of 1970. -/
def epochDay : Nat := 719163

/-- Microseconds since the start of 1970. -/
def instant (t : Timestamp) : Int :=
  ((t.day : Int) - epochDay) * microsPerDay + t.micros - t.offset.getD 0

/-! ## Seconds since 1970 -/

/-- The instants of the years 1 to 9999. -/
def inRange (instant : Int) : Bool :=
  (1 - (epochDay : Int)) * microsPerDay ≤ instant &&
    instant < ((Calendar.lastDay : Int) + 1 - epochDay) * microsPerDay

/-- The instant that many seconds after the start of 1970. -/
def instantOfSeconds? (n : Int) : Option Int :=
  let i := n * microsPerSecond
  if inRange i then some i else none

/-- A fraction of a second `± num / den` in microseconds: the product is rounded as a
binary number first and then to an integer, a half going to the even neighbour. -/
def fractionMicros (num den : Nat) : Nat :=
  match (Double.ofRatio false (num * microsPerSecond) den).view with
  | .finite _ m e =>
    if 0 ≤ e then m * twoPow e.toNat else Double.roundHalfEven m (twoPow (-e).toNat)
  | _ => 0

/-- The instant a possibly fractional number of seconds after the start of 1970. -/
def instantOfDouble? (x : Double) : Option Int :=
  match x.view with
  | .finite negative m e =>
    let (whole, fraction) :=
      if 0 ≤ e then (m * twoPow e.toNat, 0)
      else (m / twoPow (-e).toNat, fractionMicros (m % twoPow (-e).toNat) (twoPow (-e).toNat))
    let size : Int := whole * microsPerSecond + fraction
    let i := if negative then -size else size
    if inRange i then some i else none
  | _ => none

/-- Whole seconds since the start of 1970, toward zero, of the instant as a binary number.  A clock
without an offset is taken for universal time, not for the time of the zone it may be read in. -/
def epochSeconds (t : Timestamp) : Int :=
  let x := Double.ofRatio (t.instant < 0) t.instant.natAbs microsPerSecond
  x.truncate?.getD 0

/-! ## Written forms -/

def padded (width n : Nat) : String := String.ofList (DecimalStyle.padLeft (natDigits n) width)

/-- A time of day: seconds and microseconds only where the form needs them. -/
def clock (micros : Nat) (alwaysSeconds : Bool) : String :=
  let seconds := micros / microsPerSecond
  let rest := micros % microsPerSecond
  let base := padded 2 (seconds / 3600) ++ ":" ++ padded 2 (seconds / 60 % 60)
  let withSeconds := base ++ ":" ++ padded 2 (seconds % 60)
  if rest ≠ 0 then withSeconds ++ "." ++ padded 6 rest
  else if alwaysSeconds || seconds % 60 ≠ 0 then withSeconds
  else base

def offsetText : Option Int → String
  | none => ""
  | some o => (if o < 0 then "-" else "+") ++ clock o.natAbs false

/-- The ISO form, with the given text between day and time. -/
def iso (between : String) (t : Timestamp) : String :=
  let (year, month, day) := Calendar.civil t.day
  padded 4 year ++ "-" ++ padded 2 month ++ "-" ++ padded 2 day ++ between ++
    clock t.micros true ++ offsetText t.offset

/-- A timestamp as messages show it. -/
def shown (t : Timestamp) : String := t.iso " "

/-- A nonzero length of time in microseconds in its long form: whole days, rounded down, then
seconds and microseconds. -/
def quotedDuration (micros : Int) : String :=
  let days := Int.fdiv micros microsPerDay
  let rest := (Int.fmod micros microsPerDay).toNat
  let parts :=
    (if days ≠ 0 then [s!"days={intText days}"] else []) ++
    (if rest / microsPerSecond ≠ 0 then [s!"seconds={rest / microsPerSecond}"] else []) ++
    (if rest % microsPerSecond ≠ 0 then [s!"microseconds={rest % microsPerSecond}"] else [])
  "datetime.timedelta(" ++ ", ".intercalate parts ++ ")"

/-- An offset as it stands in the long form of a timestamp. -/
def quotedOffset (o : Int) : String :=
  if o = 0 then "datetime.timezone.utc" else "datetime.timezone(" ++ quotedDuration o ++ ")"

/-- The long form that error messages show. -/
def quoted (t : Timestamp) : String :=
  let (year, month, day) := Calendar.civil t.day
  let seconds := t.micros / microsPerSecond
  let micros := t.micros % microsPerSecond
  let tail :=
    if micros ≠ 0 then [seconds % 60, micros] else if seconds % 60 ≠ 0 then [seconds % 60] else []
  let fields := [year, month, day, seconds / 3600, seconds / 60 % 60] ++ tail
  let zone := match t.offset with
    | none => []
    | some o => ["tzinfo=" ++ quotedOffset o]
  "datetime.datetime(" ++ ", ".intercalate (fields.map toString ++ zone) ++ ")"

end Timestamp
end CloudAccess
