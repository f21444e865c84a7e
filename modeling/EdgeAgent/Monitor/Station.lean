import EdgeAgent.Clock.Timeline
import EdgeAgent.Monitor.Basic

/-! # Stations

A station runs one monitor: in a loop of its own, one pass in every period, and
whenever it is asked for a pass from outside. Passes do not overlap; those who
want the monitor get it in the order in which they came. A pass that succeeds
publishes the fragment, one that fails leaves the fragment as it is. -/

namespace EdgeAgent

namespace Station

inductive Runner where
  | loop
  | outside
deriving DecidableEq, Repr

/-- What someone wants of the monitor: a pass, or a visit to the fragment. -/
inductive Claim where
  /-- The instant is that of the request. -/
  | pass (runner : Runner) (requested : Nat)
  | visit
deriving DecidableEq, Repr

def Claim.isOutside : Claim → Bool
  | .pass .outside _ => true
  | _ => false

/-- Where the loop is. -/
inductive Loop where
  /-- It has not been started. -/
  | absent
  | spawned (instant : Nat)
  | asleep (wake : Timer)
  | passing
  | ended
deriving DecidableEq, Repr

structure Pass (μ : Type) where
  runner : Runner
  requested : Nat
  ending : Timer
  course : Course μ MonitorError

end Station

structure Station (μ : Type) where
  name : String
  enabled : Bool
  monitor : μ
  /-- What has been written since the last hand-over. -/
  fragment : Payload := {}
  slot : Slot := {}
  /-- Whole milliseconds, in nanoseconds. -/
  period : Nat
  /-- When the last pass was requested; at first, when the station was set up. -/
  lastUpdate : Nat
  /-- How long the last pass took that was not cut short. -/
  lastDuration : Option Nat := none
  loop : Station.Loop := .absent
  /-- The loop was asked to end. -/
  stopping : Bool := false
  /-- The pass that has begun. -/
  underWay : Option (Station.Pass μ) := none
  /-- Those who wait for the monitor, the first one first. -/
  waiting : List Station.Claim := []

namespace Station

variable {μ : Type} [Monitor μ]

def new (m : μ) (period now : Nat) : Station μ where
  name := Monitor.name m
  enabled := Monitor.enabled m
  monitor := m
  period := Duration.wholeMillis period
  lastUpdate := now

def setPeriod (s : Station μ) (period : Nat) : Station μ :=
  { s with period := Duration.wholeMillis period }

def isRunning (s : Station μ) : Bool :=
  match s.loop with
  | .spawned _ | .asleep _ | .passing => true
  | .absent | .ended => false

def wasStarted (s : Station μ) : Bool := s.loop != .absent

def start (s : Station μ) (now : Nat) : Station μ :=
  if !s.enabled || s.isRunning then s
  else { s with loop := .spawned now, stopping := false }

/-- Asks the loop to end; a pass that has begun goes on. -/
def stop (s : Station μ) : Station μ := { s with stopping := true }

/-- Hands the fragment over, and begins a new one. -/
def publish (s : Station μ) : Station μ :=
  { s with slot := (s.slot.publish s.fragment).2, fragment := {} }

/-! ## Passes -/

/-- Writes what is known into the fragment, and hands it over if that succeeds. -/
def report (s : Station μ) : Station μ :=
  match Monitor.populate s.monitor s.fragment with
  | (none, fragment) => { s with fragment }.publish
  | (some _, fragment) => { s with fragment }

/-- The loop after a pass of its own: it sleeps until a period has passed since
the last request, unless it was asked to end. -/
def rest (s : Station μ) (now : Nat) (w : World) : Station μ :=
  { s with loop :=
      if s.stopping then .ended
      else .asleep (.after now (s.period - (now - s.lastUpdate)) w.rank) }

def finish (s : Station μ) (p : Pass μ) (now : Nat) (w : World) : Station μ × World :=
  let (outcome, monitor, w) := p.course.finish s.monitor w
  let s := { s with monitor, underWay := none }
  match outcome with
  | .crashed =>
    match p.runner with
    | .loop => ({ s with loop := .ended }, w)
    | .outside => (s, { w with simulation := { w.simulation with crashed := true } })
  | outcome =>
    let s := match outcome with
      | .done => s.report
      | _ => s
    let s := { s with lastDuration := some (now - p.requested) }
    (match p.runner with
      | .loop => s.rest now w
      | .outside => s, w)

def isWanted (s : Station μ) : Bool :=
  match s.waiting with
  | .pass .. :: _ => true
  | _ => false

/-- Begins the pass of the first one who waits, if the monitor is free. A pass
without a pause is over at once. -/
def beginNext (s : Station μ) (now : Nat) (w : World) : Station μ × World :=
  match s.underWay, s.waiting with
  | none, .pass runner requested :: waiting =>
    let (course, w) := Monitor.update s.monitor now w
    let rank := match runner with
      | .loop => w.rank
      | .outside => .ahead
    let p : Pass μ := ⟨runner, requested, course.ending now rank, course⟩
    let s := { s with waiting }
    if course.pause.isNone then s.finish p now w else ({ s with underWay := some p }, w)
  | _, _ => (s, w)

def isFree (s : Station μ) : Bool := s.underWay.isNone && s.waiting.isEmpty

def request (s : Station μ) (runner : Runner) (now : Nat) (w : World) : Station μ × World :=
  let asked := { s with lastUpdate := now, waiting := s.waiting ++ [Claim.pass runner now] }
  if s.isFree then asked.beginNext now w else (asked, w)

def askVisit (s : Station μ) : Station μ := { s with waiting := s.waiting ++ [Claim.visit] }

def isVisited (s : Station μ) : Bool := s.underWay.isNone && s.waiting.head? == some Claim.visit

def leave (s : Station μ) : Station μ :=
  if s.isVisited then { s with waiting := s.waiting.drop 1 } else s

/-- A pass that was asked for from outside is not over yet. -/
def isAwaited (s : Station μ) : Bool :=
  (match s.underWay with
    | some p => p.runner == .outside
    | none => false) ||
  s.waiting.any Claim.isOutside

/-! ## The loop -/

def loopDue (s : Station μ) (now : Nat) : Option Timer :=
  match s.loop with
  | .spawned instant => some (.woken instant)
  | .asleep wake => some (if s.stopping then .woken now else wake)
  | .absent | .passing | .ended => none

/-- The next turn of the loop. Its first pass comes half a period after the last
request, or at once. -/
def loopTurn (s : Station μ) (now : Nat) (w : World) : Station μ × World :=
  if s.stopping then ({ s with loop := .ended }, w)
  else
    match s.loop with
    | .spawned _ =>
      ({ s with loop := .asleep (.after now (s.period / 2 - (now - s.lastUpdate)) w.rank) }, w)
    | .asleep _ => { s with loop := .passing }.request .loop now w
    | _ => (s, w)

/-- When the pass that has begun is over; if there is none, the next one begins
as soon as those who act at the instant are done. -/
def passDue (s : Station μ) (now : Nat) : Option Timer :=
  match s.underWay with
  | some p => some p.ending
  | none => if s.isWanted then some (.woken now) else none

def passTurn (s : Station μ) (now : Nat) (w : World) : Station μ × World :=
  match s.underWay with
  | some p => if p.ending.rings ≤ now then s.finish p now w else (s, w)
  | none => s.beginNext now w

def due (s : Station μ) (now : Nat) : Option Timer :=
  Timer.sooner (s.loopDue now) (s.passDue now)

def turn (s : Station μ) (now : Nat) (w : World) : Station μ × World :=
  if Timer.isFirst (s.loopDue now) (s.passDue now) then s.loopTurn now w else s.passTurn now w

instance : Timed (Station μ) := ⟨due, turn⟩

/-! ## Waiting -/

def awaitPass (t : Timeline (Station μ)) : Timeline (Station μ) :=
  (t.act fun s now w => s.request .outside now w).await (!·.isAwaited)

def awaitPublish (t : Timeline (Station μ)) : Timeline (Station μ) :=
  ((t.act fun s _ w => (s.askVisit, w)).await isVisited).act fun s _ w => (s.publish.leave, w)

def awaitFragment (t : Timeline (Station μ)) : Payload × Timeline (Station μ) :=
  let t := (t.act fun s _ w => (s.askVisit, w)).await isVisited
  (t.part.fragment, t.act fun s _ w => (s.leave, w))

/-! ## Summaries -/

def toJson (s : Station μ) : Json :=
  .ofDocument <| Table.ofList
    [("enabled", .bool s.enabled), ("running", .bool s.isRunning), ("started", .bool s.wasStarted),
     ("full", .bool s.slot.isFull), ("period", .str (toString s.period)),
     ("last", Json.ofOption (fun d => .str (toString d)) s.lastDuration)]

end Station
end EdgeAgent
