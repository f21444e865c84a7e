import EdgeAgent.Number.Power
import EdgeAgent.Text.Blank

/-! # Dates

A timestamp counts seconds from the start of 1970 and nanoseconds within the
second; a leap second continues the nanoseconds of the second before it. Dates
follow the Gregorian calendar in both directions. -/

namespace EdgeAgent

structure Timestamp where
  seconds : Int
  nanos : Nat
deriving DecidableEq, Repr, Inhabited

namespace Timestamp

def total (t : Timestamp) : Int := t.seconds * 1000000000 + t.nanos

def ofTotal (n : Int) : Timestamp := ⟨n / 1000000000, (n % 1000000000).toNat⟩

/-! ## Calendar -/

structure Date where
  year : Int
  month : Nat
  day : Nat
deriving DecidableEq, Repr

def isLeap (year : Int) : Bool := year % 4 == 0 && (year % 100 != 0 || year % 400 == 0)

def monthLength (year : Int) (month : Nat) : Nat :=
  if month = 2 then (if isLeap year then 29 else 28)
  else if month = 4 ∨ month = 6 ∨ month = 9 ∨ month = 11 then 30 else 31

/-- Days from the start of 1970 to a date. Years begin in March here, so that
the leap day is the last one. -/
def dayOfDate (d : Date) : Int :=
  let y := if d.month ≤ 2 then d.year - 1 else d.year
  let era := y / 400
  let yearOfEra := y % 400
  let shifted : Int := if 2 < d.month then (d.month : Int) - 3 else (d.month : Int) + 9
  let dayOfYear := (153 * shifted + 2) / 5 + d.day - 1
  let dayOfEra := yearOfEra * 365 + yearOfEra / 4 - yearOfEra / 100 + dayOfYear
  era * 146097 + dayOfEra - 719468

def dateOfDay (day : Int) : Date :=
  let z := day + 719468
  let era := z / 146097
  let dayOfEra := z % 146097
  let yearOfEra := (dayOfEra - dayOfEra / 1460 + dayOfEra / 36524 - dayOfEra / 146096) / 365
  let dayOfYear := dayOfEra - (365 * yearOfEra + yearOfEra / 4 - yearOfEra / 100)
  let shifted := (5 * dayOfYear + 2) / 153
  let d := dayOfYear - (153 * shifted + 2) / 5 + 1
  let m := if shifted < 10 then shifted + 3 else shifted - 9
  ⟨yearOfEra + era * 400 + (if m ≤ 2 then 1 else 0), m.toNat, d.toNat⟩

def yearRange : Int × Int := (-262143, 262142)

/-! ## Writing -/

private def padded (width n : Nat) : String :=
  let ds := toString n
  String.ofList (List.replicate (width - ds.length) '0') ++ ds

private def yearText (y : Int) : String :=
  if 0 ≤ y ∧ y ≤ 9999 then padded 4 y.toNat
  else (if y < 0 then "-" else "+") ++ padded 4 y.natAbs

private def fractionText (nanos : Nat) : String :=
  if nanos = 0 then ""
  else if nanos % 1000000 = 0 then "." ++ padded 3 (nanos / 1000000)
  else if nanos % 1000 = 0 then "." ++ padded 6 (nanos / 1000)
  else "." ++ padded 9 nanos

private def upToSeconds (seconds : Int) (leap : Nat) : String :=
  let date := dateOfDay (seconds / 86400)
  let s := (seconds % 86400).toNat
  yearText date.year ++ "-" ++ padded 2 date.month ++ "-" ++ padded 2 date.day ++ "T" ++
    padded 2 (s / 3600) ++ ":" ++ padded 2 (s / 60 % 60) ++ ":" ++ padded 2 (s % 60 + leap)

/-- Date and time in universal time, with as many groups of three fraction
digits as are needed. -/
def text (t : Timestamp) : String :=
  let leap := t.nanos / 1000000000
  upToSeconds t.seconds leap ++ fractionText (t.nanos % 1000000000) ++ "Z"

def textInSeconds (t : Timestamp) : String := upToSeconds t.seconds (t.nanos / 1000000000) ++ "Z"

/-! ## Reading -/

namespace Reader

private def digit? (c : Char) : Option Nat :=
  if '0' ≤ c ∧ c ≤ '9' then some (c.toNat - '0'.toNat) else none

def digits : Nat → Nat → Nat → List Char → Nat × Nat × List Char
  | 0, value, count, cs => (value, count, cs)
  | _ + 1, value, count, [] => (value, count, [])
  | width + 1, value, count, c :: rest =>
    match digit? c with
    | some d => digits width (value * 10 + d) (count + 1) rest
    | none => (value, count, c :: rest)

def number (width : Nat) (cs : List Char) : Option (Nat × List Char) :=
  match digits width 0 0 cs with
  | (_, 0, _) => none
  | (v, _, rest) => some (v, rest)

def field (width : Nat) (cs : List Char) : Option (Nat × List Char) :=
  number width (Text.trimStart cs)

def year (cs : List Char) : Option (Int × List Char) :=
  match Text.trimStart cs with
  | '-' :: rest => (number rest.length rest).map fun (v, r) => (-(v : Int), r)
  | '+' :: rest => (number rest.length rest).map fun (v, r) => ((v : Int), r)
  | rest => (number 4 rest).map fun (v, r) => ((v : Int), r)

def mark (c : Char) (cs : List Char) : Option (List Char) :=
  match Text.trimStart cs with
  | d :: rest => if c = d then some (Text.trimStart rest) else none
  | [] => none

/-- Nanoseconds of an optional fraction; digits beyond the ninth do not count. -/
def fraction (cs : List Char) : Option (Nat × List Char) :=
  match cs with
  | '.' :: rest =>
    match digits 9 0 0 rest with
    | (_, 0, _) => none
    | (v, count, rest) => some (v * tenTo (9 - count), rest.dropWhile fun c => (digit? c).isSome)
  | rest => some (0, rest)

private def lower (c : Char) : Char :=
  if 'A' ≤ c ∧ c ≤ 'Z' then Char.ofNat (c.toNat + 32) else c

private def twoDigits (cs : List Char) : Option (Nat × Nat × List Char) :=
  match cs with
  | a :: b :: rest => do return (← digit? a, ← digit? b, rest)
  | _ => none

def offset (cs : List Char) : Option (Int × List Char) :=
  match cs with
  | c :: rest =>
    if (cs.take 3).map lower = ['u', 't', 'c'] then some (0, cs.drop 3)
    else if lower c = 'z' then some (0, rest)
    else do
      let sign : Int ←
        if c = '+' then some 1 else if c = '-' ∨ c = '−' then some (-1) else none
      let (h1, h2, rest) ← twoDigits rest
      let rest := rest.dropWhile fun c => c = ':' || Text.isBlank c
      let (m1, m2, rest) ← twoDigits rest
      if m1 ≤ 5 then
        return (sign * (((h1 * 10 + h2) * 3600 + (m1 * 10 + m2) * 60 : Nat) : Int), rest)
      else none
  | [] => none

end Reader

open Reader in
/-- Reads a date and time: digits may be fewer than written, and blanks may
stand between the parts. -/
def ofText? (s : String) : Option Timestamp := do
  let (y, cs) ← year s.toList
  let cs ← mark '-' cs
  let (mo, cs) ← field 2 cs
  let cs ← mark '-' cs
  let (d, cs) ← field 2 cs
  let cs ← match cs with
    | c :: rest => if c = 'T' ∨ c = 't' ∨ c = ' ' then some rest else none
    | [] => none
  let (h, cs) ← field 2 cs
  let cs ← mark ':' cs
  let (mi, cs) ← field 2 cs
  let cs ← mark ':' cs
  let (sec, cs) ← field 2 cs
  let (nanos, cs) ← fraction cs
  let (ahead, rest) ← offset (Text.trimStart cs)
  if rest.isEmpty ∧ yearRange.1 ≤ y ∧ y ≤ yearRange.2 ∧ 1 ≤ mo ∧ mo ≤ 12 ∧
      1 ≤ d ∧ d ≤ monthLength y mo ∧ h ≤ 23 ∧ mi ≤ 59 ∧ sec ≤ 60 ∧ ahead.natAbs < 86400 then
    let leap := if sec = 60 then 1 else 0
    let seconds := dayOfDate ⟨y, mo, d⟩ * 86400 +
      ((h * 3600 + mi * 60 + (sec - leap) : Nat) : Int) - ahead
    let back := (dateOfDay (seconds / 86400)).year
    if yearRange.1 ≤ back ∧ back ≤ yearRange.2 then
      some ⟨seconds, nanos + leap * 1000000000⟩
    else none
  else none

end Timestamp
end EdgeAgent
