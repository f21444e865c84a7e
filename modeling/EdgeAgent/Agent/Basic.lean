import EdgeAgent.Agenda.Basic
import EdgeAgent.Agent.Duty
import EdgeAgent.Settings

/-! # The agent

An agent keeps the server informed: heartbeats tell that the edge is alive,
reports tell what has changed since the last report that the server accepted.
Its workers look after the monitors and the commissioned attributes. The answers
of the server may ask for other periods, which are kept in step everywhere. -/

namespace EdgeAgent

inductive Operation where
  | heartbeat
  | report
  | watch
deriving DecidableEq, Repr

/-- An operation that waits for the server. -/
structure Errand where
  /-- The name of the action. -/
  name : String
  /-- When the answer comes. -/
  ending : Timer
  /-- When the operation is given up. -/
  drop : Timer
  outcome : Except ServerError Response
  /-- The payload that the server knows once it has accepted the report. -/
  payload : Option Payload

/-- Where the loop of an agent is. -/
inductive AgentLoop where
  | absent
  | asleep (wake : Timer)
  | waiting (e : Errand)
  /-- The loop is left, because it was asked to or because of a fault. -/
  | left (fault : Option Agenda.Fault)

structure Agent where
  crew : Crew Duty Duty.Param Duty.Act
  agenda : Agenda Operation
  /-- The last payload that the server accepted. -/
  accepted : Payload := {}
  telemetryPeriod : Nat
  heartbeatPeriod : Nat
  loop : AgentLoop := .absent
  /-- The loop was asked to end; it is never asked again to go on. -/
  stopping : Bool := false

namespace Agent

def moduleName : String := "Agent"

def telemetryWorker : String := "Telemetry"

def commissionerWorker : String := "Commissioner"

def heartbeatAction : String := "heartbeat"
def telemetryAction : String := "telemetry"
def watchAction : String := "watch_workers"

def telemetryDelay : Nat := Duration.ofSeconds 8
def commissionerPeriod : Nat := Duration.ofSeconds 60
def commissionerDelay : Nat := Duration.ofSeconds 3
def watchPeriod : Nat := Duration.ofSeconds 45

def repeated (name id : String) (op : Operation) (period : Nat) : Action Operation :=
  (Action.new name id op period).after period

/-- The agenda of an agent. The ids differ from all names. -/
def agendaOf (telemetryPeriod heartbeatPeriod now : Nat) : Agenda Operation :=
  Agenda.new
    [repeated heartbeatAction "#1" .heartbeat heartbeatPeriod,
     repeated telemetryAction "#2" .report telemetryPeriod,
     repeated watchAction "#3" .watch watchPeriod] now

/-- Sets the workers up. Nothing runs yet. -/
def new (s : Settings) (now : Nat) (w : World) : Except AgentError Agent × World :=
  let w := { w with
    hostRoot := Path.ofText s.hostRoot
    sharedRoot := Path.ofText s.sharedVolume
    engineResources := w.server.supports Attribute.coeResources.name }
  let crew : Crew Duty Duty.Param Duty.Act := { stopTimeout := s.stopTimeout }
  match crew.add telemetryWorker (.telemetry s.excluded s.telemetryPeriod) [.run]
      s.telemetryPeriod (.given telemetryDelay) now w with
  | (.error e, _, w) => (.error (.worker e), w)
  | (.ok _, crew, w) =>
    match crew.add commissionerWorker (.commissioner s.uuid (Path.ofText s.commissioningFile))
        [.run] commissionerPeriod (.given commissionerDelay) now w with
    | (.error e, _, w) => (.error (.worker e), w)
    | (.ok _, crew, w) =>
      (.ok {
        crew
        agenda := agendaOf s.telemetryPeriod s.heartbeatPeriod now
        telemetryPeriod := s.telemetryPeriod
        heartbeatPeriod := s.heartbeatPeriod },
       w.say moduleName .starting "")

/-! ## The duties -/

def telemetry? (a : Agent) : Option (Telemetry Builtin) :=
  (a.crew.workers.find? telemetryWorker).bind (·.unit.telemetry?)

def commissioner? (a : Agent) : Option Commissioner :=
  (a.crew.workers.find? commissionerWorker).bind (·.unit.commissioner?)

def putUnit (a : Agent) (worker : String) (d : Duty) : Agent :=
  { a with crew := a.crew.modify worker fun s => { s with unit := d } }

def setTelemetryUnitPeriod (a : Agent) (period : Nat) : Agent :=
  { a with crew := a.crew.modify telemetryWorker fun s =>
      { s with unit := s.unit.mapTelemetry fun t => t.setPeriod period } }

/-! ## Answers of the server -/

/-- Adopts another period between reports, unless it is too short: for the
worker, the monitors and the action. -/
def adoptTelemetryPeriod (a : Agent) (period : Nat) : Agent :=
  match a.crew.editPeriod telemetryWorker period with
  | (false, _) => a
  | (true, crew) =>
    let a := { a with crew, telemetryPeriod := period }.setTelemetryUnitPeriod period
    { a with agenda := (a.agenda.editPeriod telemetryAction period).2 }

def adoptHeartbeatPeriod (a : Agent) (period : Nat) : Agent :=
  { a with
    heartbeatPeriod := period
    agenda := (a.agenda.editPeriod heartbeatAction period).2 }

def adopt (a : Agent) (r : Response) : Agent :=
  let a := match r.refreshInterval.map Duration.ofSeconds with
    | some p => if p = a.telemetryPeriod then a else a.adoptTelemetryPeriod p
    | none => a
  match r.heartbeatInterval.map Duration.ofSeconds with
  | some p => if p = a.heartbeatPeriod ∨ p = 0 then a else a.adoptHeartbeatPeriod p
  | none => a

/-! ## Operations -/

/-- Collects what there is to report, with the state of the edge. -/
def collect (a : Agent) (w : World) : Option (Payload × Agent × World) := do
  let t ← a.telemetry?
  let (p, t, w) := t.snapshot w
  let board := w.board.review w.date w.engine.errors
  let p := (p.put .status board.state).put .statusNotes board.notes
  return (p, a.putUnit telemetryWorker (.telemetry t), { w with board })

def reportRequest (accepted p : Payload) : Request :=
  let changes := Payload.changes accepted p
  .telemetry (Document.only p.toDocument changes.send) changes.delete

/-- A report on its way: what it tells, and the server's answer. -/
structure Sent where
  payload : Payload
  exchange : World.Exchange

def sendReport (a : Agent) (now : Nat) (w : World) : Option (Sent × Agent × World) := do
  let (payload, a, w) ← a.collect w
  let (exchange, w) := w.send now (reportRequest a.accepted payload)
  return (⟨payload, exchange⟩, a, w)

def accept (a : Agent) (p : Option Payload) (r : Response) (w : World) : Agent × World :=
  let a := match p with
    | some p => { a with accepted := p }
    | none => a
  (a.adopt r, w.say moduleName .running "")

/-- Sets up anew the workers that do not run. Fresh monitors get the period that
is in force. -/
def watch (a : Agent) (now : Nat) (w : World) : Agent × World :=
  let (healed, crew, w) := a.crew.heal now w
  let a := { a with crew }
  (if healed = 0 then a else a.setTelemetryUnitPeriod a.telemetryPeriod, w)

/-! ## The loop -/

def rest (a : Agent) (now : Nat) (w : World) : Agent :=
  match a.agenda.sleepTime now with
  | .ok (d, agenda) => { a with agenda, loop := .asleep (.after now d w.rank) }
  | .error fault => { a with loop := .left (some fault) }

def start (a : Agent) (now : Nat) (w : World) : Agent :=
  { a with crew := a.crew.start now }.rest now w

/-- Asks the loop to end; an operation that has begun goes on. -/
def stop (a : Agent) : Agent := { a with stopping := true }

/-- When an operation is given up: it gets its period twice. -/
def dropTimer (now period : Nat) (w : World) : Timer :=
  .after (Timer.after now period w.rank).rings period w.rank

/-- The server's answer to a request of an action is waited for. -/
def await (a : Agent) (x : Action Operation) (exchange : World.Exchange) (p : Option Payload)
    (now : Nat) (w : World) : Agent :=
  { a with loop := .waiting {
      name := x.name
      ending := .after now exchange.delay w.rank
      drop := dropTimer now x.period w
      outcome := exchange.outcome
      payload := p } }

/-- Begins an operation. Watching the workers is over at once. -/
def dispatch (a : Agent) (x : Action Operation) (now : Nat) (w : World) : Agent × World :=
  match x.task with
  | .heartbeat =>
    let (exchange, w) := w.send now .heartbeat
    (a.await x exchange none now w, w)
  | .report =>
    match a.sendReport now w with
    | some (sent, a, w) => (a.await x sent.exchange (some sent.payload) now w, w)
    | none => (a.rest now w, w)
  | .watch =>
    let (a, w) := a.watch now w
    (a.rest now w, w)

/-- Runs the action that is due first, if it is due. -/
def beginCycle (a : Agent) (now : Nat) (w : World) : Agent × World :=
  let w := w.say moduleName .running ""
  match a.agenda.callNext now with
  | .error fault => ({ a with loop := .left (some fault) }, w)
  | .ok (none, agenda) => ({ a with agenda }.rest now w, w)
  | .ok (some x, agenda) => { a with agenda }.dispatch x now w

def endCycle (a : Agent) (e : Errand) (now : Nat) (w : World) : Agent × World :=
  if e.ending.rings ≤ e.drop.rings then
    match e.outcome with
    | .ok r =>
      let (a, w) := a.accept e.payload r w
      (a.rest now w, w)
    | .error x =>
      let reason := (AgentError.server x).message
      (a.rest now w, w.say moduleName .warning (e.name ++ " failed: " ++ reason))
  else (a.rest now w, w.say moduleName .warning (e.name ++ " timed out"))

def loopDue (a : Agent) (now : Nat) : Option Timer :=
  match a.loop with
  | .asleep wake => some (if a.stopping then .woken now else wake)
  | .waiting e => some (if e.ending.rings ≤ e.drop.rings then e.ending else e.drop)
  | .absent | .left _ => none

def loopTurn (a : Agent) (now : Nat) (w : World) : Agent × World :=
  match a.loop with
  | .asleep _ => if a.stopping then ({ a with loop := .left none }, w) else a.beginCycle now w
  | .waiting e => a.endCycle e now w
  | .absent | .left _ => (a, w)

def due (a : Agent) (now : Nat) : Option Timer :=
  Timer.sooner (a.loopDue now) (a.crew.due now)

def turn (a : Agent) (now : Nat) (w : World) : Agent × World :=
  if Timer.isFirst (a.loopDue now) (a.crew.due now) then a.loopTurn now w
  else
    let (crew, w) := a.crew.turn now w
    ({ a with crew }, w)

instance : Timed Agent := ⟨due, turn⟩

def hasLeft (a : Agent) : Bool :=
  match a.loop with
  | .left _ => true
  | _ => false

end Agent
end EdgeAgent
