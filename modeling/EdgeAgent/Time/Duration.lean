import EdgeAgent.Number.Double

/-! # Spans of time

Durations and instants are natural numbers of nanoseconds; an instant is counted
from the start of the clock. Timers only see whole milliseconds: a deadline is met at the
first tick that does not lie before it. -/

namespace EdgeAgent

namespace Duration

def ofMillis (ms : Nat) : Nat := ms * 1000000
def ofSeconds (s : Nat) : Nat := s * 1000000000

def seconds (d : Nat) : Nat := d / 1000000000
def nanos (d : Nat) : Nat := d % 1000000000

def maxMillis : Nat := twoTo 64 - 1

def millis (d : Nat) : Nat := min (d / 1000000) maxMillis

def wholeMillis (d : Nat) : Nat := ofMillis (millis d)

/-- Seconds as a double: whole seconds and the fraction are rounded each. -/
def inSeconds (d : Nat) : Double :=
  Double.ofNat (seconds d) + Double.ofNat (nanos d) / Double.ofNat 1000000000

/-! ## Text -/

private def trimZeros (cs : List Char) : List Char :=
  (cs.reverse.dropWhile (· == '0')).reverse

private def padded (width n : Nat) : List Char :=
  let ds := (toString n).toList
  List.replicate (width - ds.length) '0' ++ ds

private def decimal (whole fraction width : Nat) (unit : String) : String :=
  let places := trimZeros (padded width fraction)
  toString whole ++ (if places.isEmpty then "" else "." ++ String.ofList places) ++ unit

/-- The duration in the greatest unit that is not above it. -/
def text (d : Nat) : String :=
  if 1000000000 ≤ d then decimal (d / 1000000000) (d % 1000000000) 9 "s"
  else if 1000000 ≤ d then decimal (d / 1000000) (d % 1000000) 6 "ms"
  else if 1000 ≤ d then decimal (d / 1000) (d % 1000) 3 "µs"
  else decimal d 0 0 "ns"

end Duration

namespace Instant

def millis (t : Nat) : Nat := t / 1000000

/-- The first tick of the timers that does not lie before a deadline. -/
def tick (deadline : Nat) : Nat := (deadline + 999999) / 1000000 * 1000000

theorem le_tick (deadline : Nat) : deadline ≤ tick deadline := by
  unfold tick
  omega

theorem tick_lt (deadline : Nat) : tick deadline < deadline + 1000000 := by
  unfold tick
  omega

/-- Instants from here on cannot be told. -/
def endOfTime : Nat := Duration.ofSeconds (twoTo 63)

/-- What counts for a wait whose end cannot be told: thirty years. -/
def longWait : Nat := Duration.ofSeconds (30 * 365 * 86400)

/-- How long a span is waited for that begins now. -/
def wait (now span : Nat) : Nat := if endOfTime ≤ now + span then longWait else span

theorem wait_of_lt {now span : Nat} (h : now + span < endOfTime) : wait now span = span :=
  if_neg (Nat.not_le.2 h)

/-- The first tick at which a wait that begins now is over. -/
def endOfWait (now span : Nat) : Nat := tick (now + wait now span)

theorem le_endOfWait (now span : Nat) : now + wait now span ≤ endOfWait now span := le_tick _

theorem wait_pos (now : Nat) {span : Nat} (h : 0 < span) : 0 < wait now span := by
  unfold wait
  split
  · decide
  · exact h

theorem lt_endOfWait (now : Nat) {span : Nat} (h : 0 < span) : now < endOfWait now span := by
  have hwait := wait_pos now h
  have hle := le_endOfWait now span
  omega

theorem endOfWait_zero_le (now span : Nat) : endOfWait now 0 ≤ endOfWait now span := by
  unfold endOfWait tick wait
  split <;> split <;> omega

end Instant
end EdgeAgent
