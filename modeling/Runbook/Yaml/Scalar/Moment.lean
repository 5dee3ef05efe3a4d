import Runbook.Text.Basic
import Runbook.Value
import Runbook.Yaml.Problem

/-!
# Dates and moments in YAML

* `MomentText`: the parts of a date with an optional time of day and an optional distance from
  universal time;
* `isMoment`: the plain scalars that are dates or moments;
* `momentOf`: the date or moment of a text, which must exist in the calendar.
-/

namespace Runbook.Yaml

/-- A time of day as it is written. -/
structure ClockText where
  hour : Nat
  minute : Nat
  second : Nat
  fraction : List Char
  zone : Option Int

/-- A date as it is written; `isPadded` says that month and day have two digits. -/
structure MomentText where
  year : Nat
  month : Nat
  day : Nat
  isPadded : Bool
  clock : Option ClockText

/-! ## 1. Parts -/

/-- At least and at most so many digits at the start of a text: their number, how many there are,
and what follows. -/
def digitsBetween (least most : Nat) (s : List Char) : Option (Nat × Nat × List Char) :=
  let digits := (s.take most).takeWhile Char.isDigit
  if digits.length < least then none
  else
    some (digits.foldl (fun n c => 10 * n + (c.toNat - '0'.toNat)) 0, digits.length,
      s.drop digits.length)

/-- One given character. -/
def expect (c : Char) : List Char → Option (List Char)
  | [] => none
  | d :: rest => if c = d then some rest else none

/-- A distance from universal time in minutes, at the end of a text; it may be absent. -/
def zoneText? (s : List Char) : Option (Option Int) :=
  match s, s.dropWhile fun c => c == ' ' || c == '\t' with
  | [], _ => some none
  | _, ['Z'] => some (some 0)
  | _, sign :: rest =>
    if sign = '+' || sign = '-' then do
      let (hours, _, rest) ← digitsBetween 1 2 rest
      let minutes ← match rest with
        | [] => some 0
        | ':' :: rest =>
          match digitsBetween 2 2 rest with
          | some (m, _, []) => some m
          | _ => none
        | _ => none
      let total : Int := 60 * hours + minutes
      return some (if sign = '-' then -total else total)
    else none
  | _, [] => none

/-- A time of day, which goes on to the end of a text. -/
def clockText? (s : List Char) : Option ClockText := do
  let (hour, _, s) ← digitsBetween 1 2 s
  let (minute, _, s) ← digitsBetween 2 2 (← expect ':' s)
  let (second, _, s) ← digitsBetween 2 2 (← expect ':' s)
  let (fraction, s) := match s with
    | '.' :: rest => (rest.takeWhile Char.isDigit, rest.dropWhile Char.isDigit)
    | s => ([], s)
  let zone ← zoneText? s
  return ⟨hour, minute, second, fraction, zone⟩

/-- A date, with a time of day behind the letter T or blanks. -/
def momentText? (s : List Char) : Option MomentText := do
  let (year, _, s) ← digitsBetween 4 4 s
  let (month, monthLength, s) ← digitsBetween 1 2 (← expect '-' s)
  let (day, dayLength, s) ← digitsBetween 1 2 (← expect '-' s)
  let isPadded := monthLength == 2 && dayLength == 2
  match s with
  | [] => return ⟨year, month, day, isPadded, none⟩
  | c :: rest =>
    let rest ←
      if c = 'T' || c = 't' then some rest
      else if c = ' ' || c = '\t' then some (rest.dropWhile fun c => c == ' ' || c == '\t')
      else none
    let clock ← clockText? rest
    return ⟨year, month, day, isPadded, some clock⟩

/-- Whether a plain scalar is a date or a moment: a date on its own has two digits for month and
day. -/
def isMoment (s : List Char) : Bool :=
  match momentText? s with
  | some t => t.clock.isSome || t.isPadded
  | none => false

/-! ## 2. The calendar -/

/-- Whether a year has a leap day. -/
def isLeapYear (year : Nat) : Bool :=
  year % 4 = 0 && (year % 100 ≠ 0 || year % 400 = 0)

/-- The number of days of a month. -/
def daysIn (year month : Nat) : Nat :=
  if month = 2 then if isLeapYear year then 29 else 28
  else if [4, 6, 9, 11].contains month then 30
  else 31

/-- Whether a date exists. -/
def isDate (year month day : Nat) : Bool :=
  1 ≤ year && 1 ≤ month && month ≤ 12 && 1 ≤ day && day ≤ daysIn year month

/-- The number of minutes of a day. -/
def minutesPerDay : Nat := 24 * 60

/-- Millionths of a second as they are written, further digits left out. -/
def microseconds (fraction : List Char) : Nat :=
  let digits := fraction.take 6
  (digits ++ List.replicate (6 - digits.length) '0').foldl
    (fun n c => 10 * n + (c.toNat - '0'.toNat)) 0

/-- The date or moment of a text, a line feed at its end left out. -/
def momentOf (s : List Char) : Except Problem Scalar :=
  match momentText? (Text.withoutLastBreak s) with
  | none => .error .notMoment
  | some t =>
    if !isDate t.year t.month t.day then .error .noSuchMoment
    else
      match t.clock with
      | none => .ok (.date t.year t.month t.day)
      | some c =>
        if c.hour < 24 && c.minute < 60 && c.second < 60 &&
            c.zone.all (fun z => z.natAbs < minutesPerDay) then
          .ok (.moment ⟨t.year, t.month, t.day, c.hour, c.minute, c.second,
            microseconds c.fraction, c.zone⟩)
        else .error .noSuchMoment

end Runbook.Yaml
