import EdgeAgent.Worker.Craft
import EdgeAgent.Worker.State

/-! # Workers

A worker performs the actions of one unit in cycles, one in every period. A
cycle has the unit for itself; those who want the unit get it in the order in
which they came, so that a unit is only replaced between cycles. Errors are
counted until the unit is replaced; a worker gives up when there are too many,
or as soon as the unit asks for it. -/

namespace EdgeAgent

namespace Worker

/-- The delay before the first cycle. One that is not given is drawn at random. -/
inductive Delay where
  | given (span : Nat)
  /-- Whole seconds. -/
  | drawn (seconds : Nat) (least : 4 ≤ seconds) (most : seconds ≤ 8)

def Delay.span : Delay → Nat
  | .given span => span
  | .drawn seconds _ _ => Duration.ofSeconds seconds

structure Fault where
  text : String
  kind : String
deriving DecidableEq, Repr

/-- What someone wants of the unit. -/
inductive Claim (υ π : Type) where
  /-- The loop, for a cycle. -/
  | cycle
  /-- Someone who puts a fresh unit in its place, and may then start the loop. -/
  | swap (fresh : υ) (param : π) (starts : Bool)
  /-- Someone who works with the unit until it is given back. -/
  | guest

/-- Where the loop is. -/
inductive Loop (υ α : Type) where
  /-- It has not been started, or was confirmed to have ended. -/
  | absent
  | spawned (instant : Nat)
  | asleep (wake : Timer)
  /-- It waits for the unit, since an instant. -/
  | claiming (since : Nat)
  /-- It performs an action of a cycle that was wanted at an instant. -/
  | cycling (since : Nat) (action : α) (rest : List α) (ending : Timer)
      (course : Course υ UnitError)
  | ended

end Worker

structure Worker (υ π α : Type) where
  name : String
  param : π
  actions : List α
  unit : υ
  /-- Whole milliseconds, in nanoseconds. -/
  period : Nat
  initialDelay : Nat
  stopTimeout : Nat
  state : WorkerState := .constructed
  /-- The errors since the unit was last replaced, the first one first. -/
  faults : List Worker.Fault := []
  /-- When the next cycle begins, or began. -/
  nextCycle : Option Nat := none
  loop : Worker.Loop υ α := .absent
  /-- The loop was asked to end. -/
  stopping : Bool := false
  /-- The one who has the unit, and behind it those who wait. -/
  claims : List (Worker.Claim υ π) := []

namespace Worker

variable {υ π α : Type} [Craft υ π α]

def maxFaults : Nat := 10

def usualStopTimeout : Nat := Duration.ofSeconds 10

def endOfTime : Nat := Instant.endOfTime

/-- Builds the unit, and keeps those of the actions that it has. The first cycle
does not wait longer than a period. -/
def new [BEq α] (name : String) (param : π) (actions : List α) (period : Nat)
    (delay : Delay) (now : Nat) (w : World) : Except WorkerError (Worker υ π α) × World :=
  if Duration.millis period = 0 then (.error (.shortPeriod name period), w)
  else
    match Craft.build param now w with
    | (.error e, w) => (.error (.build name e), w)
    | (.ok unit, w) =>
      let capabilities := Craft.capabilities υ param
      (.ok {
        name, param, unit
        actions := actions.filter capabilities.contains
        period := Duration.wholeMillis period
        initialDelay := min delay.span period
        stopTimeout := usualStopTimeout }, w)

def setPeriod (s : Worker υ π α) (period : Nat) : Worker υ π α :=
  { s with period := Duration.wholeMillis period }

/-- The loop has not ended since it was started. -/
def isAlive (s : Worker υ π α) : Bool :=
  match s.loop with
  | .absent | .ended => false
  | .spawned _ | .asleep _ | .claiming _ | .cycling .. => true

def isRunning (s : Worker υ π α) : Bool := s.isAlive && !s.state.isFailed

def start (s : Worker υ π α) (now : Nat) : Worker υ π α :=
  if s.isRunning || s.state.isFailed then s
  else { s with state := .running, loop := .spawned now, stopping := false }

/-! ## Stopping -/

/-- Asks the loop to end; a cycle that has begun goes on. -/
def stop (s : Worker υ π α) : Worker υ π α := { s with stopping := true }

/-- Takes note of the loop's end; the answer tells whether it has ended. -/
def confirmEnd (s : Worker υ π α) : Bool × Worker υ π α :=
  if s.isAlive then (false, s) else (true, { s with loop := .absent })

/-! ## The unit -/

def replace (s : Worker υ π α) (fresh : υ) (param : π) (starts : Bool) (now : Nat) :
    Worker υ π α :=
  let s := { s with unit := fresh, param, faults := [] }
  if s.isRunning then s
  else
    let s := { s with state := .constructed }
    if starts then s.start now else s

/-- Lets those replace the unit whose turn it is. -/
def serveSwaps (now : Nat) : List (Claim υ π) → Worker υ π α → Worker υ π α
  | .swap fresh param starts :: rest, s => serveSwaps now rest (s.replace fresh param starts now)
  | claims, s => { s with claims }

def release (s : Worker υ π α) (now : Nat) : Worker υ π α := serveSwaps now (s.claims.drop 1) s

def claim (s : Worker υ π α) (c : Claim υ π) (now : Nat) : Worker υ π α :=
  serveSwaps now (s.claims ++ [c]) s

/-- Builds a unit, from new parameters if there are any, and has it put in place
of the old one. If it cannot be built, all stays. -/
def reset (s : Worker υ π α) (param : Option π) (starts : Bool) (now : Nat) (w : World) :
    Except WorkerError (Worker υ π α) × World :=
  let param := param.getD s.param
  match Craft.build param now w with
  | (.error e, w) => (.error (.build s.name e), w)
  | (.ok fresh, w) => (.ok (s.claim (.swap fresh param starts) now), w)

def awaitsSwap (s : Worker υ π α) : Bool :=
  s.claims.any fun c => match c with
    | .swap .. => true
    | _ => false

def borrow (s : Worker υ π α) (now : Nat) : Worker υ π α := s.claim .guest now

def isLent (s : Worker υ π α) : Bool :=
  match s.claims with
  | .guest :: _ => true
  | _ => false

def giveBack (s : Worker υ π α) (now : Nat) : Worker υ π α :=
  if s.isLent then s.release now else s

/-! ## Cycles -/

/-- Records an error. A request to end, or one error too many, is fatal. -/
def record (s : Worker υ π α) (action : α) (e : UnitError) : Worker υ π α :=
  let faults := s.faults ++ [⟨Craft.actionName υ action ++ ": " ++ e.message, e.kind⟩]
  { s with
    faults
    state := if e.isExit || decide (maxFaults < faults.length)
      then .failed (faults.map (·.text)) else s.state }

def die (s : Worker υ π α) (now : Nat) : Worker υ π α :=
  { s with loop := .ended }.release now

def leave (s : Worker υ π α) : Worker υ π α := { s with state := .stopped, loop := .ended }

/-- The loop goes to sleep until a cycle, unless it was asked to end. -/
def sleep (s : Worker υ π α) (span now : Nat) (w : World) : Worker υ π α :=
  let s := { s with nextCycle := some (now + span) }
  if s.stopping then s.leave else { s with loop := .asleep (.after now span w.rank) }

/-- Begins the next action of a cycle, or ends the cycle. A loop that was asked
to end does so before the unit goes to the next one who wants it. -/
def goOn (s : Worker υ π α) (since : Nat) (rest : List α) (now : Nat) (w : World) :
    Worker υ π α × World :=
  match rest with
  | [] => ((s.sleep (s.period - (now - since)) now w).release now, w)
  | action :: rest =>
    let (course, w) := Craft.perform s.unit action now w
    ({ s with loop := .cycling since action rest (course.ending now w.rank) course }, w)

def finish (s : Worker υ π α) (since : Nat) (action : α) (rest : List α)
    (course : Course υ UnitError) (now : Nat) (w : World) : Worker υ π α × World :=
  let (outcome, unit, w) := course.finish s.unit w
  let s := { s with unit }
  match outcome with
  | .done => s.goOn since rest now w
  | .crashed => (s.die now, w)
  | .failed e =>
    let s := s.record action e
    if s.state.isFailed then (s.die now, w) else s.goOn since rest now w

/-! ## Turns -/

def hasUnit (s : Worker υ π α) : Bool :=
  match s.claims with
  | .cycle :: _ => true
  | _ => false

def loopDue (s : Worker υ π α) (now : Nat) : Option Timer :=
  match s.loop with
  | .spawned instant => some (.woken instant)
  | .asleep wake => some (if s.stopping then .woken now else wake)
  | .claiming _ => if s.hasUnit then some (.woken now) else none
  | .cycling _ _ _ ending _ => some ending
  | .absent | .ended => none

def wake (s : Worker υ π α) (now : Nat) (w : World) : Worker υ π α :=
  if endOfTime ≤ now + s.initialDelay then { s with loop := .ended }
  else s.sleep s.initialDelay now w

def loopTurn (s : Worker υ π α) (now : Nat) (w : World) : Worker υ π α × World :=
  match s.loop with
  | .spawned _ => (s.wake now w, w)
  | .asleep _ =>
    if s.stopping then (s.leave, w)
    else
      let s := { s with loop := .claiming now }.claim .cycle now
      if s.hasUnit then s.goOn now s.actions now w else (s, w)
  | .claiming since => if s.hasUnit then s.goOn since s.actions now w else (s, w)
  | .cycling since action rest _ course => s.finish since action rest course now w
  | .absent | .ended => (s, w)

variable [Timed υ]

def due (s : Worker υ π α) (now : Nat) : Option Timer :=
  Timer.sooner (s.loopDue now) (Timed.due s.unit now)

def turn (s : Worker υ π α) (now : Nat) (w : World) : Worker υ π α × World :=
  if Timer.isFirst (s.loopDue now) (Timed.due s.unit now) then s.loopTurn now w
  else
    let (unit, w) := Timed.turn s.unit now w
    ({ s with unit }, w)

instance : Timed (Worker υ π α) := ⟨due, turn⟩

/-! ## Summaries -/

structure Summary where
  name : String
  period : Nat
  /-- Until the next cycle, while the worker runs. -/
  remaining : Option Nat
  kinds : List String
  state : WorkerState
deriving DecidableEq, Repr

def summary (s : Worker υ π α) (now : Nat) : Summary where
  name := s.name
  period := s.period
  remaining := if s.state = .running then s.nextCycle.map (· - now) else none
  kinds := s.faults.map (·.kind)
  state := s.state

namespace Summary

def toJson (s : Summary) : Json :=
  .ofDocument <| Table.ofList
    [("name", .str s.name), ("period_secs", .double (Duration.inSeconds s.period)),
     ("remaining_secs", Json.ofOption (fun d => .double (Duration.inSeconds d)) s.remaining),
     ("error_count", .ofNat s.kinds.length), ("error_kinds", Json.texts s.kinds),
     ("state", s.state.toJson)]

end Summary

/-! ## Waiting -/

/-- Asks a worker to end, and waits for it as long as it is given time; the
answer tells whether it has ended. -/
def awaitStop (t : Timeline (Worker υ π α)) : Bool × Timeline (Worker υ π α) :=
  let t := t.act fun s _ w => (s.stop, w)
  (t.awaitAtMost (!·.isAlive) t.part.stopTimeout).ask fun s _ w =>
    let (ended, s) := s.confirmEnd
    (ended, s, w)

def awaitReset (t : Timeline (Worker υ π α)) (param : Option π) (starts : Bool) :
    Except WorkerError Unit × Timeline (Worker υ π α) :=
  match t.part.reset param starts t.now t.world with
  | (.error e, world) => (.error e, { t with world })
  | (.ok part, world) =>
    (.ok (), ({ t with part, world } : Timeline (Worker υ π α)).await (!·.awaitsSwap))

def awaitUnit (t : Timeline (Worker υ π α)) : υ × Timeline (Worker υ π α) :=
  let t := (t.act fun s now w => (s.borrow now, w)).await isLent
  (t.part.unit, t.act fun s now w => (s.giveBack now, w))

end Worker
end EdgeAgent
