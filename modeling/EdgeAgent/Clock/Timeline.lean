import EdgeAgent.Clock.Course

/-! # The timeline

A part of an agent takes turns, each at an instant of its own. The timeline lets
the clock jump from turn to turn, so nothing happens between them, and every
turn that is due at an instant is taken before the clock moves on. -/

namespace EdgeAgent

/-- A part that takes turns. -/
class Timed (σ : Type) where
  /-- The timer of the next turn, at an instant; at once, if it has rung. None if
  the part waits for something else. -/
  due : σ → Nat → Option Timer
  /-- Takes the turn that is due. -/
  turn : σ → Nat → World → σ × World

/-- The part, its surroundings and the instant reached. -/
structure Timeline (σ : Type) where
  part : σ
  world : World
  /-- Nanoseconds since the clock was started. -/
  now : Nat := 0
  /-- How many turns are waited for at most. -/
  patience : Nat := twoTo 60

namespace Timeline

variable {σ : Type}

def amend (t : Timeline σ) (f : World → World) : Timeline σ := { t with world := f t.world }

def count (t : Timeline σ) : Timeline σ := t.amend fun w => { w with turns := w.turns + 1 }

/-- Acts on the part from outside, without the clock moving. -/
def act (t : Timeline σ) (f : σ → Nat → World → σ × World) : Timeline σ :=
  let t := t.count
  let (part, world) := f t.part t.now t.world
  { t with part, world }

def ask {α : Type} (t : Timeline σ) (f : σ → Nat → World → α × σ × World) : α × Timeline σ :=
  let t := t.count
  let (a, part, world) := f t.part t.now t.world
  (a, { t with part, world })

variable [Timed σ]

/-- Takes the turn that is due at an instant; the clock never goes back. -/
def take (t : Timeline σ) (instant : Nat) : Timeline σ :=
  let now := max t.now instant
  let t := t.count
  let (part, world) := Timed.turn t.part now t.world
  { t with part, world, now }

/-- Takes the next turn, if there is one until `limit`; without a limit it may
come at any time. -/
def step? (t : Timeline σ) (limit : Option Nat) : Option (Timeline σ) :=
  match Timed.due t.part t.now with
  | none => none
  | some timer => if limit.all (timer.rings ≤ ·) then some (t.take timer.rings) else none

/-- Takes the turns that are due until `limit`, as long as `done` does not hold,
and at most `fuel` of them. -/
def run (limit : Option Nat) (done : σ → Bool) : Nat → Timeline σ → Timeline σ
  | 0, t => t
  | fuel + 1, t =>
    if done t.part then t
    else
      match t.step? limit with
      | none => t
      | some t => run limit done fuel t

def runUntil (t : Timeline σ) (instant : Nat) : Timeline σ :=
  t.run (some instant) (fun _ => false) t.patience

def settle (t : Timeline σ) : Timeline σ := t.runUntil t.now

/-- Lets time pass, up to the first tick that does not lie before its end.
Without a span no turn is taken. -/
def advance (t : Timeline σ) (span : Nat) : Timeline σ :=
  if span = 0 then t
  else
    let limit := Instant.tick (t.now + span)
    { t.runUntil limit with now := limit }

def await (t : Timeline σ) (done : σ → Bool) : Timeline σ := t.run none done t.patience

/-- Waits until something holds, but no longer than a span; what is due at the end
of the span comes too late. Without a span no turn is taken. -/
def awaitAtMost (t : Timeline σ) (done : σ → Bool) (span : Nat) : Timeline σ :=
  if span = 0 then t
  else
    let limit := Instant.endOfWait t.now span
    let t := t.run (some (limit - 1)) done t.patience
    if done t.part then t else { t with now := limit }

/-- Waits for a span from outside; what is due at its end comes later. -/
def pause (t : Timeline σ) (span : Nat) : Timeline σ := t.awaitAtMost (fun _ => false) span

end Timeline
end EdgeAgent
