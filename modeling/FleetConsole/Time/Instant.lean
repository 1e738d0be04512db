import FleetConsole.Text.Blank
import FleetConsole.Text.Digits
import FleetConsole.Time.Calendar

/-!
# Points in time

An instant is a number of seconds since the start of 1970 in universal time and a number of
nanoseconds within the second. A leap second has no number of its own: it is the second before it
with a thousand million nanoseconds more, and is written as second 60.

Instants are read in the Internet date and time format, with the liberties that programs take:
blanks between the parts, one-digit fields, a blank or a small letter in place of `T`, years of more
than four digits behind a sign, and offsets without a colon. The time of day is required in full,
and so is the offset.
-/

namespace FleetConsole

open Text

/-- A point in time. The nanoseconds are below `2 * 10 ^ 9`, and below `10 ^ 9` but in a leap
second. -/
structure Instant where
  seconds : Int
  nanos : Nat
  deriving DecidableEq, Repr, Inhabited

namespace Instant

/-! ### Writing -/

/-- How much of the fraction of a second is written: nothing, or as many groups of three digits as
it takes. -/
inductive Precision where
  | seconds
  | exact
  deriving DecidableEq

/-- A year: four digits, and a sign and at least four digits outside the years 0 to 9999. -/
def yearText (year : Int) : List Char :=
  if 0 ≤ year ∧ year ≤ 9999 then padZeros 4 year.natAbs
  else (if year < 0 then '-' else '+') :: padZeros 4 year.natAbs

def fractionText (nanos : Nat) : List Char :=
  if nanos = 0 then []
  else if nanos % 1000000 = 0 then '.' :: padZeros 3 (nanos / 1000000)
  else if nanos % 1000 = 0 then '.' :: padZeros 6 (nanos / 1000)
  else '.' :: padZeros 9 nanos

def chars (precision : Precision) (t : Instant) : List Char :=
  let date := Date.ofDays (t.seconds / 86400)
  let ofDay := (t.seconds % 86400).toNat
  let leap := 1000000000 ≤ t.nanos
  let second := ofDay % 60 + (if leap then 1 else 0)
  let nanos := if leap then t.nanos - 1000000000 else t.nanos
  yearText date.year ++ '-' :: padZeros 2 date.month ++ '-' :: padZeros 2 date.day
    ++ 'T' :: padZeros 2 (ofDay / 3600) ++ ':' :: padZeros 2 (ofDay / 60 % 60)
    ++ ':' :: padZeros 2 second
    ++ (if precision = .exact then fractionText nanos else []) ++ ['Z']

def text (precision : Precision) (t : Instant) : String :=
  String.ofList (chars precision t)

/-! ### Reading -/

/-- A number of at least one and at most `width` digits after blanks. -/
def field? (width : Nat) (cs : List Char) : Option (Nat × List Char) :=
  let cs := dropBlank cs
  let ds := (cs.take width).takeWhile Char.isDigit
  if ds.isEmpty then none else some (decimalValue ds, cs.drop ds.length)

/-- A year: up to four digits, or a sign and any number of them. -/
def year? (cs : List Char) : Option (Int × List Char) :=
  let signed (rest : List Char) : Option (Nat × List Char) :=
    let ds := rest.takeWhile Char.isDigit
    if ds.isEmpty then none else some (decimalValue ds, rest.drop ds.length)
  match dropBlank cs with
  | '-' :: rest => (signed rest).map fun r => (-(r.1 : Int), r.2)
  | '+' :: rest => (signed rest).map fun r => ((r.1 : Int), r.2)
  | rest => (field? 4 rest).map fun r => ((r.1 : Int), r.2)

/-- A mark after blanks. -/
def mark? (mark : Char) (cs : List Char) : Option (List Char) :=
  match dropBlank cs with
  | [] => none
  | c :: rest => if c = mark then some rest else none

/-- The nanoseconds behind a point, if there is one; digits after the ninth are dropped. -/
def fraction? (cs : List Char) : Option (Nat × List Char) :=
  match cs with
  | '.' :: rest =>
    let ds := rest.takeWhile Char.isDigit
    if ds.isEmpty then none
    else
      let kept := ds.take 9
      some (decimalValue kept * Nat.pow 10 (9 - kept.length), rest.drop ds.length)
  | rest => some (0, rest)

def twoDigits? : List Char → Option (Nat × List Char)
  | a :: b :: rest =>
    if a.isDigit ∧ b.isDigit then some (10 * digitValue a + digitValue b, rest) else none
  | _ => none

/-- The seconds of a number of hours and minutes, with colons and blanks between the two. -/
def hoursMinutes? (cs : List Char) : Option (Nat × List Char) := do
  let (hours, cs) ← twoDigits? cs
  let (minutes, cs) ← twoDigits? (cs.dropWhile fun c => c = ':' || isBlank c)
  if minutes < 60 ∧ hours < 24 then some (3600 * hours + 60 * minutes, cs) else none

/-- The seconds by which local time is ahead of universal time. -/
def offset? (cs : List Char) : Option (Int × List Char) :=
  match cs with
  | [] => none
  | c :: rest =>
    if c = 'z' ∨ c = 'Z' then some (0, rest)
    else if c = '+' then (hoursMinutes? rest).map fun r => ((r.1 : Int), r.2)
    else if c = '-' ∨ c = '\u2212' then (hoursMinutes? rest).map fun r => (-(r.1 : Int), r.2)
    else
      match rest with
      | d :: e :: rest =>
        if c.toLower = 'u' ∧ d.toLower = 't' ∧ e.toLower = 'c' then some (0, rest) else none
      | _ => none

/-- The first and the last year whose dates can be represented. -/
def leastYear : Int := -262143

def greatestYear : Int := 262142

def leastSecond : Int := (Date.toDays ⟨leastYear, 1, 1⟩) * 86400

def greatestSecond : Int := (Date.toDays ⟨greatestYear, 12, 31⟩) * 86400 + 86399

/-- A time of day; the second is 60 in a leap second. -/
structure TimeOfDay where
  hour : Nat
  minute : Nat
  second : Nat
  nanos : Nat

def date? (cs : List Char) : Option (Date × List Char) := do
  let (year, cs) ← year? cs
  let cs ← mark? '-' cs
  let (month, cs) ← field? 2 cs
  let cs ← mark? '-' cs
  let (day, cs) ← field? 2 cs
  return (⟨year, month, day⟩, cs)

def timeMark? : List Char → Option (List Char)
  | [] => none
  | c :: rest => if c = 'T' ∨ c = 't' ∨ c = ' ' then some rest else none

def timeOfDay? (cs : List Char) : Option (TimeOfDay × List Char) := do
  let (hour, cs) ← field? 2 cs
  let cs ← mark? ':' cs
  let (minute, cs) ← field? 2 cs
  let cs ← mark? ':' cs
  let (second, cs) ← field? 2 cs
  let (nanos, cs) ← fraction? cs
  return (⟨hour, minute, second, nanos⟩, cs)

/-- The instant of a local date and time that is so many seconds ahead of universal time, if the
date and the time exist and the instant can be represented. -/
def ofLocal? (date : Date) (time : TimeOfDay) (offset : Int) : Option Instant :=
  if date.isValid ∧ (leastYear ≤ date.year ∧ date.year ≤ greatestYear) ∧
      time.hour < 24 ∧ time.minute < 60 ∧ time.second ≤ 60 then
    let (second, nanos) :=
      if time.second = 60 then (59, time.nanos + 1000000000) else (time.second, time.nanos)
    let seconds := date.toDays * 86400 + 3600 * time.hour + 60 * time.minute + second - offset
    if leastSecond ≤ seconds ∧ seconds ≤ greatestSecond then some ⟨seconds, nanos⟩ else none
  else none

def ofChars? (cs : List Char) : Option Instant := do
  let (date, cs) ← date? cs
  let cs ← timeMark? cs
  let (time, cs) ← timeOfDay? cs
  let (offset, cs) ← offset? (dropBlank cs)
  if (dropBlank cs).isEmpty then ofLocal? date time offset else none

def ofText? (s : String) : Option Instant :=
  ofChars? s.toList

end Instant

end FleetConsole
