/-!
# Dates and times

Dates of the Gregorian calendar from year 1 to year 9999, times of day to
the microsecond, and offsets from universal time in whole minutes of less
than a day. `Date.make` and `DateTime.make` refuse anything else, and say
which part is wrong.

Two date-times with an offset are equal when they name the same instant.
-/

namespace JobChart

/-- What is wrong with the parts of a date, a time or an offset. -/
inductive CalendarError where
  | year (year : Nat)
  | month
  | day
  | hour
  | minute
  | second
  | offset (minutes : Int)
deriving DecidableEq, Repr

structure Date where
  year : Nat
  month : Nat
  day : Nat
deriving DecidableEq, Repr, Inhabited

/-- A date with a time of day, and the offset from universal time in minutes
when it is known. -/
structure DateTime where
  date : Date
  hour : Nat
  minute : Nat
  second : Nat
  micro : Nat
  offset : Option Int
deriving DecidableEq, Repr, Inhabited

/-! ## Durations -/

/-- A duration of so many minutes, as days and seconds of the day. -/
def durationLiteral (minutes : Int) : String :=
  let days := minutes / 1440
  let seconds := minutes % 1440 * 60
  let parts := (if days = 0 then [] else ["days=" ++ toString days])
    ++ (if seconds = 0 then [] else ["seconds=" ++ toString seconds])
  "datetime.timedelta(" ++ (if parts.isEmpty then "0" else ", ".intercalate parts) ++ ")"

def CalendarError.message : CalendarError → String
  | year y => "year " ++ toString y ++ " is out of range"
  | month => "month must be in 1..12"
  | day => "day is out of range for month"
  | hour => "hour must be in 0..23"
  | minute => "minute must be in 0..59"
  | second => "second must be in 0..59"
  | offset m =>
    "offset must be a timedelta strictly between -timedelta(hours=24) and "
      ++ "timedelta(hours=24), not " ++ durationLiteral m ++ "."

/-! ## Dates -/

namespace Date

/-- Leap years: every fourth, of the centuries every fourth. -/
def isLeap (year : Nat) : Bool := year % 4 == 0 && (year % 100 != 0 || year % 400 == 0)

def monthLength (year month : Nat) : Nat :=
  if month = 2 then (if isLeap year then 29 else 28)
  else if month = 4 ∨ month = 6 ∨ month = 9 ∨ month = 11 then 30
  else 31

def make (year month day : Nat) : Except CalendarError Date :=
  if year < 1 ∨ 9999 < year then .error (.year year)
  else if month < 1 ∨ 12 < month then .error .month
  else if day < 1 ∨ monthLength year month < day then .error .day
  else .ok ⟨year, month, day⟩

/-- The number of days up to this date, counted from the first day of year 1. -/
def ordinal (d : Date) : Nat :=
  let y := d.year - 1
  let months := (List.range (d.month - 1)).map fun m => monthLength d.year (m + 1)
  y * 365 + y / 4 - y / 100 + y / 400 + months.foldl (· + ·) 0 + d.day

end Date

/-- The digits of a number, zeros in front up to `width`. -/
def zeroPadded (width n : Nat) : String :=
  let ds := Nat.toDigits 10 n
  String.ofList (List.replicate (width - ds.length) '0' ++ ds)

def Date.text (d : Date) : String :=
  zeroPadded 4 d.year ++ "-" ++ zeroPadded 2 d.month ++ "-" ++ zeroPadded 2 d.day

def Date.literal (d : Date) : String :=
  "datetime.date(" ++ ", ".intercalate [toString d.year, toString d.month, toString d.day] ++ ")"

/-! ## Date-times -/

namespace DateTime

/-- The date-time with these parts; a bad offset is reported first. -/
def make (year month day hour minute second micro : Nat) (offset : Option Int) :
    Except CalendarError DateTime := do
  match offset with
  | some m => if m ≤ -1440 ∨ 1440 ≤ m then throw (.offset m)
  | none => pure ()
  let date ← Date.make year month day
  if 23 < hour then throw .hour
  if 59 < minute then throw .minute
  if 59 < second then throw .second
  return ⟨date, hour, minute, second, micro, offset⟩

/-- Microseconds since the first day of year 1, in universal time when the
offset is known. -/
def instant (t : DateTime) : Int :=
  let minutes : Int := (t.date.ordinal * 1440 + t.hour * 60 + t.minute : Nat)
  ((minutes - t.offset.getD 0) * 60 + t.second) * 1000000 + t.micro

/-- Equal instants, both with or both without an offset. -/
def same (t u : DateTime) : Bool :=
  t.offset.isSome == u.offset.isSome && t.instant == u.instant

/-- An offset as hours and minutes behind its sign. -/
def offsetText (minutes : Int) : String :=
  (if minutes < 0 then "-" else "+") ++ zeroPadded 2 (minutes.natAbs / 60) ++ ":"
    ++ zeroPadded 2 (minutes.natAbs % 60)

/-- Date and time with a blank between them. -/
def text (t : DateTime) : String :=
  t.date.text ++ " " ++ zeroPadded 2 t.hour ++ ":" ++ zeroPadded 2 t.minute ++ ":"
    ++ zeroPadded 2 t.second ++ (if t.micro = 0 then "" else "." ++ zeroPadded 6 t.micro)
    ++ (t.offset.map offsetText).getD ""

/-- The date-time as a constructor call; trailing zero parts are left out. -/
def literal (t : DateTime) : String :=
  let small := if t.micro = 0 then
      (if t.second = 0 then [] else [toString t.second])
    else [toString t.second, toString t.micro]
  let zone := match t.offset with
    | none => []
    | some 0 => ["tzinfo=datetime.timezone.utc"]
    | some m => ["tzinfo=datetime.timezone(" ++ durationLiteral m ++ ")"]
  let parts := [t.date.year, t.date.month, t.date.day, t.hour, t.minute].map toString
  "datetime.datetime(" ++ ", ".intercalate (parts ++ small ++ zone) ++ ")"

end DateTime

end JobChart
