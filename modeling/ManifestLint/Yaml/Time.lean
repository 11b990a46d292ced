set_option autoImplicit false

/-! # Dates and times

A document can hold a date, and a date with a time of day. A time may say by how much its clock is
ahead of universal time. Two times that both say so are compared by the moment they stand for, and
two that do not by what the clock shows; a time of one sort and one of the other have no order. -/

namespace ManifestLint.Yaml

/-- A number in decimal digits, filled up with zeros to at least `width` digits. -/
def padded (width n : Nat) : String :=
  let digits := Nat.toDigits 10 n
  String.ofList (List.replicate (width - digits.length) '0' ++ digits)

/-! ## Dates -/

/-- Decides whether a year has a day more than the others. -/
def isLeap (year : Nat) : Bool := year % 4 == 0 && (year % 100 != 0 || year % 400 == 0)

/-- The number of days of a month. -/
def daysIn (year month : Nat) : Nat :=
  match month with
  | 2 => if isLeap year then 29 else 28
  | 4 | 6 | 9 | 11 => 30
  | _ => 31

/-- A day of the calendar. -/
structure Date where
  year : Nat
  month : Nat
  day : Nat
  year_bounds : 1 ≤ year ∧ year ≤ 9999
  month_bounds : 1 ≤ month ∧ month ≤ 12
  day_bounds : 1 ≤ day ∧ day ≤ daysIn year month
deriving DecidableEq, Repr

namespace Date

/-- The date of a year, a month and a day, if there is one. -/
def of? (year month day : Nat) : Option Date :=
  if h : (1 ≤ year ∧ year ≤ 9999) ∧ (1 ≤ month ∧ month ≤ 12) ∧ 1 ≤ day ∧ day ≤ daysIn year month
  then some ⟨year, month, day, h.1, h.2.1, h.2.2⟩
  else none

/-- The number of the day, counted from the first day of the year 1. -/
def ordinal (date : Date) : Nat :=
  let past := date.year - 1
  let months := (List.range' 1 (date.month - 1)).map (daysIn date.year)
  past * 365 + past / 4 - past / 100 + past / 400 + months.foldl (· + ·) date.day

/-- A date as plain text. -/
def plain (date : Date) : String :=
  s!"{padded 4 date.year}-{padded 2 date.month}-{padded 2 date.day}"

/-- A date as messages show it. -/
def shown (date : Date) : String := s!"datetime.date({date.year}, {date.month}, {date.day})"

end Date

/-! ## Times -/

/-- A time on a day. The offset is the number of minutes that its clock is ahead of universal
time. -/
structure Time where
  date : Date
  hour : Nat
  minute : Nat
  second : Nat
  microsecond : Nat
  offset : Option Int
  clock_bounds : hour < 24 ∧ minute < 60 ∧ second < 60 ∧ microsecond < 1000000
  offset_bounds : ∀ minutes ∈ offset, -1440 < minutes ∧ minutes < 1440
deriving DecidableEq, Repr

namespace Time

/-- The microseconds up to the time: on the clock, or in universal time if there is an offset. -/
def instant (time : Time) : Int :=
  let minutes : Int := (time.date.ordinal * 24 + time.hour) * 60 + time.minute
  ((minutes - time.offset.getD 0) * 60 + time.second) * 1000000 + time.microsecond

/-- Decides whether the first time is before the second one, if they have an order. -/
def less? (time time' : Time) : Option Bool :=
  if time.offset.isSome = time'.offset.isSome then some (time.instant < time'.instant) else none

/-- Decides whether two times are equal: those of different sorts never are. -/
def same (time time' : Time) : Bool :=
  time.offset.isSome == time'.offset.isSome && time.instant == time'.instant

/-- A time as plain text. -/
def plain (time : Time) : String :=
  let fraction := if time.microsecond = 0 then "" else "." ++ padded 6 time.microsecond
  let zone :=
    match time.offset with
    | none => ""
    | some minutes =>
      let sign := if minutes < 0 then "-" else "+"
      s!"{sign}{padded 2 (minutes.natAbs / 60)}:{padded 2 (minutes.natAbs % 60)}"
  s!"{time.date.plain} {padded 2 time.hour}:{padded 2 time.minute}:{padded 2 time.second}" ++
    fraction ++ zone

/-- The time zone of an offset as messages show it: a number of days, which is negative west of
universal time, and a number of seconds. -/
def shownZone (minutes : Int) : String :=
  if minutes = 0 then "datetime.timezone.utc"
  else
    let days := if minutes < 0 then ["days=-1"] else []
    let seconds := (if minutes < 0 then minutes + 1440 else minutes) * 60
    let numbers := String.intercalate ", " (days ++ [s!"seconds={seconds}"])
    s!"datetime.timezone(datetime.timedelta({numbers}))"

/-- A time as messages show it: seconds are left out if they are zero, and so are parts of
them. -/
def shown (time : Time) : String :=
  let date := time.date
  let seconds :=
    if time.microsecond ≠ 0 then [time.second, time.microsecond]
    else if time.second ≠ 0 then [time.second]
    else []
  let numbers := [date.year, date.month, date.day, time.hour, time.minute] ++ seconds
  let zone := (time.offset.map fun minutes => "tzinfo=" ++ shownZone minutes).toList
  let parts := String.intercalate ", " (numbers.map toString ++ zone)
  s!"datetime.datetime({parts})"

end Time

end ManifestLint.Yaml
