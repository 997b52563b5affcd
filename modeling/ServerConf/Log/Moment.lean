/-!
Points in time on the Gregorian calendar, and where they lie in their week and
year.
-/

namespace ServerConf.Log

/-- A point in time as clocks show it in a zone that is `offset` minutes ahead
of universal time. -/
structure Moment where
  year : Nat
  month : Nat := 1
  day : Nat := 1
  hour : Nat := 0
  minute : Nat := 0
  second : Nat := 0
  millisecond : Nat := 0
  offset : Int := 0
  zone : String := "UTC"
  deriving DecidableEq, Repr

namespace Calendar

def isLeap (year : Nat) : Bool :=
  year % 4 = 0 && (year % 100 ≠ 0 || year % 400 = 0)

def monthLengths (year : Nat) : List Nat :=
  [31, if isLeap year then 29 else 28, 31, 30, 31, 30, 31, 31, 30, 31, 30, 31]

/-- The days from the beginning of the year 1 to that of the given year. -/
def daysBefore (year : Nat) : Nat :=
  let past := year - 1
  past * 365 + past / 4 - past / 100 + past / 400

/-- The weekday of the first of January, counted from Sunday. The year 1 began
on a Monday. -/
def firstWeekday (year : Nat) : Nat :=
  (daysBefore year + 1) % 7

def weeks (year : Nat) : Nat :=
  if firstWeekday year = 4 || (isLeap year && firstWeekday year = 3) then
    53 else 52

def weekdayNames : List String :=
  ["Sunday", "Monday", "Tuesday", "Wednesday", "Thursday", "Friday", "Saturday"]

def monthNames : List String :=
  ["January", "February", "March", "April", "May", "June", "July", "August",
    "September",
    "October", "November", "December"]

end Calendar

namespace Moment

def yearDay (m : Moment) : Nat :=
  ((Calendar.monthLengths m.year).take (m.month - 1)).foldr (· + ·) (m.day - 1)

def weekday (m : Moment) : Nat :=
  (Calendar.firstWeekday m.year + m.yearDay) % 7

def weekdayFromMonday (m : Moment) : Nat :=
  (m.weekday + 6) % 7

/-- The year that the moment's week belongs to, and the week's number in it. A
week belongs to the year of its Thursday. -/
def week (m : Moment) : Nat × Nat :=
  let number := (m.yearDay + 10 - m.weekdayFromMonday) / 7
  if number = 0 then (m.year - 1, Calendar.weeks (m.year - 1))
  else if Calendar.weeks m.year < number then (m.year + 1, 1)
  else (m.year, number)

def clockHour (m : Moment) : Nat :=
  if m.hour % 12 = 0 then 12 else m.hour % 12

/-- The seconds since the beginning of 1970, universal time. -/
def seconds (m : Moment) : Int :=
  let days : Int :=
    Calendar.daysBefore m.year + m.yearDay - Calendar.daysBefore 1970
  ((days * 24 + m.hour) * 60 + m.minute - m.offset) * 60 + m.second

def weekdayName (m : Moment) : String :=
  Calendar.weekdayNames.getD m.weekday ""

def monthName (m : Moment) : String :=
  Calendar.monthNames.getD (m.month - 1) ""

end Moment

end ServerConf.Log
