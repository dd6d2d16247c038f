/-!
# The calendar

Days of the Gregorian calendar, extended to all years from 1 to 9999 and numbered from one.

* `dayNumber?` numbers a day given by year, month and day;
* `weekDayNumber?` numbers a day given by ISO year, week and day of the week;
* `civil` gives year, month and day of a numbered day.
-/

namespace CloudAccess.Calendar

def isLeap (year : Nat) : Bool := year % 4 = 0 && (year % 100 ≠ 0 || year % 400 = 0)

def monthLengths (year : Nat) : List Nat :=
  [31, if isLeap year then 29 else 28, 31, 30, 31, 30, 31, 31, 30, 31, 30, 31]

/-- The days of all years before a positive one. -/
def daysBeforeYear (year : Nat) : Nat :=
  let y := year - 1
  365 * y + y / 4 - y / 100 + y / 400

/-- The days of a year before a month. -/
def daysBeforeMonth (year month : Nat) : Nat :=
  ((monthLengths year).take (month - 1)).foldl (· + ·) 0

/-- The number of the last day of the year 9999. -/
def lastDay : Nat := 3652059

/-- The number of a day, if there is such a day. -/
def dayNumber? (year month day : Nat) : Option Nat :=
  match (monthLengths year)[month - 1]? with
  | some length =>
    if 1 ≤ year ∧ year ≤ 9999 ∧ 1 ≤ month ∧ 1 ≤ day ∧ day ≤ length then
      some (daysBeforeYear year + daysBeforeMonth year month + day)
    else none
  | none => none

/-- The day of the week of a numbered day, from zero for Monday. -/
def weekDay (number : Nat) : Nat := (number + 6) % 7

/-- The number of the day before the first week of a year: the week that holds its first
Thursday. -/
def dayBeforeWeeks (year : Nat) : Int :=
  let january := daysBeforeYear year + 1
  let monday : Int := (january : Int) - weekDay january
  (if weekDay january > 3 then monday + 7 else monday) - 1

/-- Years that start on a Thursday, and leap years that start on a Wednesday, have 53 weeks. -/
def weeksOf (year : Nat) : Nat :=
  let w := weekDay (daysBeforeYear year + 1)
  if w = 3 ∨ (w = 2 ∧ isLeap year) then 53 else 52

/-- Whether a year has such a week and a week such a day. -/
def isWeekDay (year week day : Nat) : Bool :=
  1 ≤ week && week ≤ weeksOf year && 1 ≤ day && day ≤ 7

/-- The number of a day given by week, if there is such a day. -/
def weekDayNumber? (year week day : Nat) : Option Nat :=
  if 1 ≤ year && isWeekDay year week day then
    let n := dayBeforeWeeks year + (week - 1) * 7 + day
    if 1 ≤ n ∧ n ≤ lastDay then some n.toNat else none
  else none

/-- Month and day of the day that follows `days` days of a year. -/
def monthAndDay (lengths : List Nat) (days : Nat) (month : Nat) : Nat × Nat :=
  match lengths with
  | [] => (month, days + 1)
  | length :: rest =>
    if days < length then (month, days + 1) else monthAndDay rest (days - length) (month + 1)

/-- Year, month and day of a numbered day, by whole cycles of 400, 100, 4 and 1 years. -/
def civil (number : Nat) : Nat × Nat × Nat :=
  let n := number - 1
  let r400 := n % 146097
  let c100 := min (r400 / 36524) 3
  let r100 := r400 - 36524 * c100
  let r4 := r100 % 1461
  let c1 := min (r4 / 365) 3
  let year := 400 * (n / 146097) + 100 * c100 + 4 * (r100 / 1461) + c1 + 1
  let (month, day) := monthAndDay (monthLengths year) (r4 - 365 * c1) 1
  (year, month, day)

end CloudAccess.Calendar
