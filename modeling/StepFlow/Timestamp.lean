import StepFlow.Text

/-!
# Timestamps

An instant is a number of seconds since 1970 and of nanoseconds. A leap second is the second before
it with a thousand million nanoseconds and more, so that instants are ordered lexicographically.

`Timestamp.parse` reads the RFC 3339 form. The shortest prefix that can hold a date and a time has
nineteen bytes, and a text with fewer is refused at once. Otherwise the date, the time of the day
and the offset are read in this order. The digits and marks of a part are all seen before its range
is: the date is held against the calendar before the time is read, the time against the clock before
the offset is read, and the offset against its range when nothing follows it.
-/

namespace StepFlow

/-- Why a text is no timestamp. -/
inductive TimestampFlaw where
  | invalid
  | tooShort
  | outOfRange
  | tooLong
  deriving DecidableEq, Repr, Inhabited

def TimestampFlaw.message : TimestampFlaw → String
  | invalid => "input contains invalid characters"
  | tooShort => "premature end of input"
  | outOfRange => "input is out of range"
  | tooLong => "trailing input"

/-- An instant. -/
structure Timestamp where
  /-- Seconds since the beginning of 1970. -/
  seconds : Int
  nanos : Nat
  deriving DecidableEq, Repr, Inhabited

namespace Timestamp

def cmp (a b : Timestamp) : Ordering := (compare a.seconds b.seconds).then (compare a.nanos b.nanos)

/-- The nanoseconds from one instant to a later one, and none to an earlier one. -/
def remaining (now t : Timestamp) : Nat :=
  ((t.seconds - now.seconds) * 1000000000 + t.nanos - now.nanos).toNat

def isLeapYear (y : Nat) : Bool := y % 4 = 0 && (y % 100 ≠ 0 || y % 400 = 0)

def daysInMonth (y m : Nat) : Nat :=
  if m = 2 then (if isLeapYear y then 29 else 28)
  else if m = 4 ∨ m = 6 ∨ m = 9 ∨ m = 11 then 30 else 31

/-- The days from the first of March of the year 0 to a date; the years begin in March. -/
def dayNumber (y m d : Nat) : Int :=
  let y' : Int := if m ≤ 2 then (y : Int) - 1 else y
  let m' : Int := if m ≤ 2 then m + 9 else m - 3
  365 * y' + y'.fdiv 4 - y'.fdiv 100 + y'.fdiv 400 + (153 * m' + 2) / 5 + d - 1

/-- The day number of the first of January 1970. -/
def epochDay : Int := 719468

abbrev Read (α : Type) := List Char → Except TimestampFlaw (α × List Char)

/-- A number of exactly `n` digits. -/
def fixedNumber (n : Nat) : Read Nat := fun cs =>
  if Text.shorterThan n cs then .error .tooShort
  else if (cs.take n).all Char.isDigit then .ok (Text.digitsValue (cs.take n), cs.drop n)
  else .error .invalid

/-- One of some characters. -/
def mark (ok : List Char) (cs : List Char) : Except TimestampFlaw (List Char) :=
  match cs with
  | [] => .error .tooShort
  | c :: rest => if c ∈ ok then .ok rest else .error .invalid

/-- A fraction of a second, if there is one, cut to nanoseconds. -/
def fraction : Read Nat := fun cs =>
  match cs with
  | '.' :: rest =>
    match rest.takeWhile Char.isDigit with
    | [] => .error (if rest.isEmpty then .tooShort else .invalid)
    | ds =>
      let nine := (ds ++ List.replicate 9 '0').take 9
      .ok (Text.digitsValue nine, rest.dropWhile Char.isDigit)
  | _ => .ok (0, cs)

/-- The day number of a date of the calendar. -/
def date : Read Int := fun cs => do
  let (year, cs) ← fixedNumber 4 cs
  let cs ← mark ['-'] cs
  let (month, cs) ← fixedNumber 2 cs
  let cs ← mark ['-'] cs
  let (day, cs) ← fixedNumber 2 cs
  if 1 ≤ month ∧ month ≤ 12 ∧ 1 ≤ day ∧ day ≤ daysInMonth year month then
    .ok (dayNumber year month day, cs)
  else .error .outOfRange

/-- A time of the day. -/
structure Clock where
  minutes : Nat
  seconds : Nat
  nanos : Nat
  deriving DecidableEq, Repr, Inhabited

/-- The time of the day on a clock that also shows the second 60, at the end of any minute. -/
def Clock.ofFields (hour minute second nanos : Nat) : Option Clock :=
  if 23 < hour ∨ 59 < minute ∨ 60 < second then none
  else if second = 60 then some ⟨hour * 60 + minute, 59, nanos + 1000000000⟩
  else some ⟨hour * 60 + minute, second, nanos⟩

/-- A time of the day with its fraction of a second. -/
def clock : Read Clock := fun cs => do
  let (hour, cs) ← fixedNumber 2 cs
  let cs ← mark [':'] cs
  let (minute, cs) ← fixedNumber 2 cs
  let cs ← mark [':'] cs
  let (second, cs) ← fixedNumber 2 cs
  let (nanos, cs) ← fraction cs
  match Clock.ofFields hour minute second nanos with
  | some c => .ok (c, cs)
  | none => .error .outOfRange

/-- The offset from universal time, in minutes; its hours may be too many. -/
def offset : Read Int := fun cs =>
  let signed (neg : Bool) (cs : List Char) : Except TimestampFlaw (Int × List Char) := do
    let (hours, cs) ← fixedNumber 2 cs
    let cs ← mark [':'] cs
    let (minutes, cs) ← fixedNumber 2 cs
    if 59 < minutes then .error .outOfRange
    else
      let total : Int := hours * 60 + minutes
      .ok (if neg then -total else total, cs)
  match cs with
  | [] => .error .tooShort
  | c :: rest =>
    if c = 'Z' ∨ c = 'z' then .ok (0, rest)
    else if c = '+' then signed false rest
    else if c = '-' ∨ c = '\u2212' then signed true rest
    else .error .invalid

/-- The bytes of a date and a time to the second. -/
def leastSize : Nat := 19

/-- Reads a date and a time with its offset, which is shorter than a day. -/
def parse (text : String) : Except TimestampFlaw Timestamp := do
  if Text.shorterThan leastSize text.toList then throw .tooShort
  let (day, cs) ← date text.toList
  let cs ← mark ['T', 't', ' '] cs
  let (clock, cs) ← clock cs
  let (offset, cs) ← offset cs
  if !cs.isEmpty then throw .tooLong
  if 1440 ≤ offset.natAbs then throw .outOfRange
  let minutes : Int := (day - epochDay) * 1440 + clock.minutes - offset
  return ⟨minutes * 60 + clock.seconds, clock.nanos⟩

end Timestamp

end StepFlow
