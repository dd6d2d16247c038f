import CloudAccess.Time.Timestamp

/-!
# Reading ISO timestamps

A timestamp is a day, one character of any kind, and a time with an optional offset.

* Days: `YYYY-MM-DD`, `YYYYMMDD`, `YYYY-Www`, `YYYYWww`, `YYYY-Www-D`, `YYYYWwwD`.
* Times: `HH[:MM[:SS[.f]]]` or the same without colons, with a point or comma before the
  fraction, of which six digits count.
* Offsets: `Z`, or a sign and a time below 24 hours.

One ASCII character may stand between a time and the sign of its offset; it is passed over, and
so is anything between a fraction of six digits and that sign.  A NUL ends the text where nothing
or only what is passed over may follow: after a time, a fraction of six digits or a `Z`.

* `Timestamp.ofIso` reads a timestamp, `IsoError` says why a text is none;
* `Written` is a timestamp as it is written, before its numbers are looked at.
-/

namespace CloudAccess.Timestamp

/-- A number of exactly so many ASCII digits. -/
def number? : Nat → List Char → Option (Nat × List Char)
  | count, cs =>
    let ds := cs.take count
    if ds.length = count ∧ ds.all Char.isDigit then some (natOfDigits ds, cs.drop count) else none

/-! ## Days -/

/-- How many characters at the start are the day.  Where a week may be followed by a hyphen and
digits, two digits after the hyphen are taken for a time. -/
def dayLength (cs : List Char) : Nat :=
  let digitAt (i : Nat) : Bool := (cs[i]?).any Char.isDigit
  if cs.length = 7 then 7
  else if cs[4]? = some '-' then
    if cs[5]? = some 'W' then
      if cs[8]? = some '-' then (if digitAt 10 then 8 else 10) else 8
    else 10
  else if cs[4]? = some 'W' then
    let stop := 7 + ((cs.drop 7).takeWhile Char.isDigit).length
    if stop < 9 then stop else if stop % 2 = 0 then 7 else 8
  else 8

/-- The character that separates the parts of a day, if there is one. -/
def dropHyphen? (hyphens : Bool) (cs : List Char) : Option (List Char) :=
  match hyphens, cs with
  | false, cs => some cs
  | true, '-' :: rest => some rest
  | true, _ => none

/-- A day as it is written. -/
inductive WrittenDay where
  | date (year month day : Nat)
  /-- A day of a week that the year has. -/
  | weekDay (year week day : Nat)
deriving DecidableEq

/-- A day of a week, if the year has that week. -/
def weekDay? (year week day : Nat) : Option WrittenDay :=
  if Calendar.isWeekDay year week day then some (.weekDay year week day) else none

/-- The day that the first `length` characters name. -/
def day? (cs : List Char) (length : Nat) : Option WrittenDay := do
  let (year, rest) ← number? 4 cs
  let hyphens := rest.head? = some '-'
  let rest := if hyphens then rest.drop 1 else rest
  match rest with
  | 'W' :: rest =>
    let (week, rest) ← number? 2 rest
    if cs.length - rest.length < length then
      let rest ← dropHyphen? hyphens rest
      let (day, _) ← number? 1 rest
      weekDay? year week day
    else weekDay? year week 1
  | rest =>
    let (month, rest) ← number? 2 rest
    let rest ← dropHyphen? hyphens rest
    let (day, _) ← number? 2 rest
    return .date year month day

/-! ## Times -/

/-- Hours, minutes, seconds and microseconds as read, and whether something is left over. -/
structure Clock where
  parts : List Nat
  micros : Nat
  leftover : Bool

/-- The character that ends a text. -/
def nul : Char := '\x00'

/-- The digits of a fraction of a second; `following` says whether the text goes on after the
characters given. -/
def fraction? (following : Bool) (parts : List Nat) (cs : List Char) : Option Clock := do
  let count := min 6 cs.length
  let (n, rest) ← number? count cs
  let leftover := match rest.dropWhile Char.isDigit with
    | [] => following
    | c :: _ => c ≠ nul
  return ⟨parts, n * tenPow (6 - count), leftover⟩

/-- Reads two digits of hours, minutes or seconds, `left` such parts still to come.  Whether
colons separate them is settled after the hours. -/
def clockFrom? (following : Bool) : Nat → Option Bool → List Nat → List Char → Option Clock
  | left, colons, parts, cs => do
    let (n, rest) ← number? 2 cs
    let parts := parts ++ [n]
    match rest with
    | [] => return ⟨parts, 0, following⟩
    | c :: rest =>
      let colons := colons.getD (c = ':')
      if rest.isEmpty then (if c.toNat < 128 then return ⟨parts, 0, c ≠ nul⟩ else none)
      else if colons && c = ':' then
        match left with
        | 0 => fraction? following parts rest
        | left + 1 => clockFrom? following left (some colons) parts rest
      else if c = '.' || c = ',' then fraction? following parts rest
      else if !colons then
        match left with
        | 0 => fraction? following parts (c :: rest)
        | left + 1 => clockFrom? following left (some colons) parts (c :: rest)
      else none

def clock? (following : Bool) (cs : List Char) : Option Clock := clockFrom? following 2 none [] cs

def Clock.hours (c : Clock) : Nat := c.parts.getD 0 0

def Clock.minutes (c : Clock) : Nat := c.parts.getD 1 0

def Clock.seconds (c : Clock) : Nat := c.parts.getD 2 0

/-- The seconds that hours, minutes and seconds make. -/
def Clock.total (c : Clock) : Nat := c.hours * 3600 + c.minutes * 60 + c.seconds

/-- The clock as a length of time in microseconds. -/
def Clock.length (c : Clock) : Nat := c.total * microsPerSecond + c.micros

/-- The offset after its sign; one of no seconds is zero. -/
def offset? (negative : Bool) (cs : List Char) : Option Int := do
  let c ← clock? false cs
  if c.leftover then none
  else if c.total = 0 then some 0
  else some (if negative then -(c.length : Int) else c.length)

/-- A time of day and its offset. -/
def time? (cs : List Char) : Option (Clock × Option Int) := do
  let isZone (c : Char) : Bool := c = '+' || c = '-' || c = 'Z'
  let time := cs.takeWhile (!isZone ·)
  match cs.dropWhile (!isZone ·) with
  | [] =>
    let c ← clock? false time
    if c.leftover then none else some (c, none)
  | sign :: rest =>
    let c ← clock? true time
    if sign = 'Z' then
      if rest.head?.all (· = nul) then some (c, some 0) else none
    else
      let o ← offset? (sign = '-') rest
      some (c, some o)

/-! ## Timestamps -/

/-- A timestamp as it is written; its numbers need not be those of a day and a time. -/
structure Written where
  day : WrittenDay
  clock : Clock
  offset : Option Int

/-- Reads the form of a timestamp. -/
def written? (text : String) : Option Written := do
  let cs := text.toList
  let length := dayLength cs
  let day ← day? cs length
  match cs.drop length with
  | [] => return ⟨day, ⟨[], 0, false⟩, none⟩
  | _ :: time =>
    let (clock, offset) ← time? time
    return ⟨day, clock, offset⟩

/-- Why a text is no timestamp. -/
inductive IsoError where
  | form (text : String)
  /-- The offset, in microseconds, is that of a day or more. -/
  | offset (micros : Int)
  | year (number : Nat)
  | month
  | day
  | hour
  | minute
  | second
deriving DecidableEq

def IsoError.message : IsoError → String
  | form text => "Invalid isoformat string: " ++ quotedText text
  | offset micros =>
    "offset must be a timedelta strictly between -timedelta(hours=24) and timedelta(hours=24), " ++
      "not " ++ quotedDuration micros ++ "."
  | year number => s!"year {number} is out of range"
  | month => "month must be in 1..12"
  | day => "day is out of range for month"
  | hour => "hour must be in 0..23"
  | minute => "minute must be in 0..59"
  | second => "second must be in 0..59"

/-- The number of a day.  Weeks of the year zero are taken for days without a month, and the last
days of the last week of 9999 for days of the year after it. -/
def WrittenDay.number : WrittenDay → Except IsoError Nat
  | date year month day =>
    match Calendar.dayNumber? year month day with
    | some n => .ok n
    | none => .error <|
      if year < 1 ∨ 9999 < year then .year year
      else if month < 1 ∨ 12 < month then .month
      else .day
  | weekDay year week day =>
    match Calendar.weekDayNumber? year week day with
    | some n => .ok n
    | none => .error (if year < 1 then .month else .year 10000)

/-- The time of day in microseconds. -/
def Clock.ofDay (c : Clock) : Except IsoError Nat :=
  if 24 ≤ c.hours then .error .hour
  else if 60 ≤ c.minutes then .error .minute
  else if 60 ≤ c.seconds then .error .second
  else .ok c.length

/-- The timestamp that is written: first the offset has to be one, then the day, then the time. -/
def Written.timestamp (w : Written) : Except IsoError Timestamp := do
  match w.offset with
  | some o => if microsPerDay ≤ o.natAbs then .error (.offset o)
  | none => pure ()
  let day ← w.day.number
  let micros ← w.clock.ofDay
  return ⟨day, micros, w.offset⟩

/-- Reads a timestamp. -/
def ofIso (text : String) : Except IsoError Timestamp :=
  match written? text with
  | some w => w.timestamp
  | none => .error (.form text)

end CloudAccess.Timestamp
