import JobChart.Calendar
import JobChart.Decimal.Reader

/-!
# Timestamps

The written form of dates and date-times: year, month and day with hyphens,
then perhaps a time of day behind a `T` or blanks, a fraction of a second,
and an offset from universal time. Reading takes two steps: `Timestamp.read?`
is the grammar, and building the date or date-time checks the ranges.
-/

namespace JobChart

/-- A time of day as written, the fraction in microseconds. -/
structure ClockTime where
  hour : Nat
  minute : Nat
  second : Nat
  micro : Nat
  offset : Option Int
deriving DecidableEq, Repr

structure Timestamp where
  year : Nat
  month : Nat
  day : Nat
  /-- Month and day are both written with two digits. -/
  isPadded : Bool
  time : Option ClockTime
deriving DecidableEq, Repr

namespace Timestamp

/-- At least `least` and at most `most` ASCII digits, and what follows them. -/
def digits? (least most : Nat) (cs : List Char) : Option (List Char × List Char) :=
  let ds := (cs.take most).takeWhile Char.isDigit
  if least ≤ ds.length then some (ds, cs.drop ds.length) else none

def number (ds : List Char) : Nat := ds.foldl (fun n d => n * 10 + (d.toNat - '0'.toNat)) 0

/-- What follows a character that must stand here. -/
def expect? (c : Char) : List Char → Option (List Char)
  | d :: ds => if c = d then some ds else none
  | [] => none

/-- The millionths in the digits of a fraction; more than six are cut. -/
def millionths (ds : List Char) : Nat :=
  number ((ds ++ List.replicate 6 '0').take 6)

/-- An offset in minutes, and what follows it. -/
def offset? (cs : List Char) : Option (Int × List Char) :=
  match cs with
  | 'Z' :: rest => some (0, rest)
  | sign :: rest =>
    if sign = '+' ∨ sign = '-' then do
      let (h, rest) ← digits? 1 2 rest
      let (m, rest) := match expect? ':' rest >>= digits? 2 2 with
        | some (m, rest) => (number m, rest)
        | none => (0, rest)
      let minutes : Int := (number h * 60 + m : Nat)
      return (if sign = '-' then -minutes else minutes, rest)
    else none
  | [] => none

def isGap (c : Char) : Bool := c == ' ' || c == '\t'

/-- What follows the mark between date and time. -/
def afterDate? : List Char → Option (List Char)
  | [] => none
  | c :: cs =>
    if c = 'T' ∨ c = 't' then some cs
    else if isGap c then some (cs.dropWhile isGap)
    else none

/-- The end of a text, perhaps behind one line feed. -/
def isEnd (cs : List Char) : Bool := cs == [] || cs == ['\n']

/-- A time of day up to the end of the text. -/
def clock? (cs : List Char) : Option ClockTime := do
  let (h, cs) ← digits? 1 2 cs
  let (m, cs) ← expect? ':' cs >>= digits? 2 2
  let (s, cs) ← expect? ':' cs >>= digits? 2 2
  let (fraction, cs) := match cs with
    | '.' :: rest => (rest.takeWhile Char.isDigit, rest.dropWhile Char.isDigit)
    | cs => ([], cs)
  let time : ClockTime := ⟨number h, number m, number s, millionths fraction, none⟩
  if isEnd cs then return time
  else
    let (o, cs) ← offset? (cs.dropWhile isGap)
    if isEnd cs then return { time with offset := some o } else none

def read? (cs : List Char) : Option Timestamp := do
  let (y, cs) ← digits? 4 4 cs
  let (m, cs) ← expect? '-' cs >>= digits? 1 2
  let (d, cs) ← expect? '-' cs >>= digits? 1 2
  let date : Timestamp := ⟨number y, number m, number d, m.length = 2 && d.length = 2, none⟩
  if isEnd cs then return date
  else
    let time ← afterDate? cs >>= clock?
    return { date with time := some time }

def date (t : Timestamp) : Except CalendarError Date := Date.make t.year t.month t.day

def datetime (t : Timestamp) (c : ClockTime) : Except CalendarError DateTime :=
  DateTime.make t.year t.month t.day c.hour c.minute c.second c.micro c.offset

end Timestamp

end JobChart
