import EdgeAgent.Agent.Basic

/-! # Starting and stopping an agent

Before the loop every monitor makes a pass, what was found is commissioned, and
the first report is sent. In the end the monitors and the workers are stopped. -/

namespace EdgeAgent

namespace Agent

/-- Waits for a worker's unit, acts on it, waits until `done`, and gives the unit
back. -/
def withUnit (t : Timeline Agent) (worker : String)
    (f : Timeline Agent → Timeline Agent) : Timeline Agent :=
  let borrow (a : Agent) (now : Nat) : Agent :=
    { a with crew := a.crew.modify worker fun s => s.borrow now }
  let giveBack (a : Agent) (now : Nat) : Agent :=
    { a with crew := a.crew.modify worker fun s => s.giveBack now }
  let t := (t.act fun a now w => (borrow a now, w)).await (·.crew.hasLent worker)
  (f t).act fun a now w => (giveBack a now, w)

def gather (a : Agent) (now : Nat) (w : World) : Agent × World :=
  match a.telemetry? with
  | some t =>
    let (t, w) := t.gather now w
    (a.putUnit telemetryWorker (.telemetry t), w)
  | none => (a, w)

def hasGathered (a : Agent) : Bool :=
  match a.telemetry? with
  | some t => t.gathering.isEmpty
  | none => true

def awaitCommission (t : Timeline Agent) : Timeline Agent :=
  match t.part.commissioner? with
  | none => t
  | some c =>
    let (course, t) := t.ask fun a now w =>
      let (course, w) := Duty.perform (.commissioner c) now w
      (course, a, w)
    (t.pause (course.pause.getD 0)).act fun a _ w =>
      match a.commissioner? with
      | some c =>
        let (_, d, w) := course.finish (.commissioner c) w
        (a.putUnit commissionerWorker d, w)
      | none => (a, w)

def awaitReport (t : Timeline Agent) : Except AgentError Unit × Timeline Agent :=
  match t.part.sendReport t.now t.world with
  | none => (.ok (), t)
  | some (sent, part, world) =>
    let t := ({ t with part, world } : Timeline Agent).pause sent.exchange.delay
    match sent.exchange.outcome with
    | .ok r => (.ok (), t.act fun a _ w => a.accept (some sent.payload) r w)
    | .error e => (.error (.server e), t)

def awaitStartup (t : Timeline Agent) : Except AgentError Unit × Timeline Agent :=
  let t := withUnit t telemetryWorker fun t => (t.act gather).await hasGathered
  let t := withUnit t commissionerWorker awaitCommission
  awaitReport t

/-- Stops the monitors, and the workers, whose end is waited for; the answer
tells whether all have ended. -/
def awaitShutdown (t : Timeline Agent) : Bool × Timeline Agent :=
  let t := t.act fun a _ w =>
    ({ a with crew := (a.crew.modify telemetryWorker fun s =>
        { s with unit := s.unit.mapTelemetry Telemetry.stopAll }).stop }, w)
  (t.awaitAtMost (·.crew.hasEnded) t.part.crew.stopTimeout).ask fun a _ w =>
    let (ended, crew) := a.crew.confirmEnd
    (ended, { a with crew }, w.say moduleName .stopped "")

end Agent
end EdgeAgent
