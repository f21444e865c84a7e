import EdgeAgent.Proofs.Agent.Standing

/-! # The life of an agent

From when it is set up, through the startup, its loop and the shutdown, whatever the
server answers and whichever monitors and workers are lost and set up anew, the copies
of an agent's periods agree.
-/

namespace EdgeAgent.Agent

variable {s : Settings} {lent : Bool} {a : Agent}

def disturb (a : Agent) (name : String) (loop : Station.Loop) (stopping : Bool) : Agent :=
  { a with crew := a.crew.modify telemetryWorker fun u =>
      { u with unit := u.unit.mapTelemetry fun t =>
          t.modify name fun st => { st with loop, stopping } } }

/-- What may become of an agent, in any surroundings. -/
inductive Life (s : Settings) : Agent → Prop
  | new {a : Agent} (now : Nat) (w : World) : (Agent.new s now w).1 = .ok a → Life s a
  /-- The unit of telemetry is asked for where nobody has it. -/
  | startup {t : Timeline Agent} : Life s t.part → t.part.isIdle = true →
      (∀ u, t.part.crew.workers.find? telemetryWorker = some u → u.claims = []) →
      Life s (awaitStartup t).2.part
  | start {a : Agent} (now : Nat) (w : World) : Life s a → Life s (a.start now w)
  /-- A turn of the loop or of the workers and monitors, with whatever the server answers. -/
  | turn {a : Agent} (now : Nat) (w : World) : Life s a → Life s (a.turn now w).1
  | stop {a : Agent} : Life s a → Life s a.stop
  | shutdown {t : Timeline Agent} : Life s t.part → t.part.isIdle = true →
      Life s (awaitShutdown t).2.part
  /-- The loop of a monitor is asked to end, or has ended, whatever it was doing. -/
  | disturb {a : Agent} (name : String) (loop : Station.Loop) (stopping : Bool) :
      Life s a → Life s (a.disturb name loop stopping)
  | stopWorker {a : Agent} (name : String) :
      Life s a → Life s { a with crew := a.crew.modify name (·.stop) }
  /-- The loop of a worker is lost in the middle of a cycle. -/
  | loseWorker {a : Agent} (name : String) (now : Nat) : Life s a →
      Life s { a with crew := a.crew.modify name fun u => if u.isCycling then u.die now else u }

theorem calm_trivial : Calm fun _ => True := ⟨fun _ _ => trivial, fun _ _ _ _ => trivial⟩

theorem Life.inStep (h : Life s a) : a.InStep s false := by
  induction h with
  | new now w h => exact (new_spec h).1.1
  | startup _ hidle hfree ih =>
      exact (Standing.awaitStartup ⟨ih, hidle, trivial, Nat.zero_le _⟩ calm_trivial hfree).inStep
  | start now w _ ih => exact ih.start now w
  | turn now w _ ih => exact ih.turn now w
  | stop _ ih => exact ⟨ih.worker, ih.actions, ih.floor, ih.beating⟩
  | shutdown _ hidle ih =>
      exact (Standing.awaitShutdown ⟨ih, hidle, trivial, Nat.zero_le _⟩ calm_trivial).inStep
  | disturb name loop stopping _ ih =>
      exact ih.modify telemetryWorker fun _ u hu => hu.withUnit
        (Duty.mapTelemetry_follows hu.follows.unit fun _ ht =>
          ht.modify name fun _ => ⟨rfl, rfl, rfl⟩)
  | stopWorker name _ ih => exact ih.modify name fun _ u hu => ⟨hu.follows.stop, hu.guests⟩
  | loseWorker name now _ ih =>
      refine ih.modify name fun _ u hu => ?_
      split
      case isFalse => exact hu
      case isTrue hcycling =>
          refine ⟨hu.follows.die (hu.follows.queued.holding hcycling) now, ?_⟩
          intro c hc
          exact hu.guests c ((Worker.release_claims { u with loop := .ended } now).subset hc)

theorem InStep.period_of_name (h : a.InStep s lent) {x : Action Operation}
    (hx : x ∈ a.agenda.actions) :
    (x.name = telemetryAction → x.period = a.telemetryPeriod) ∧
      (x.name = heartbeatAction → x.period = a.heartbeatPeriod) := by
  have hcard : x.card ∈ actionsOf a.telemetryPeriod a.heartbeatPeriod :=
    h.actions.subset (List.mem_map_of_mem hx)
  have hnames : heartbeatAction ≠ telemetryAction ∧ watchAction ≠ telemetryAction ∧
      watchAction ≠ heartbeatAction := by decide
  obtain ⟨hheartbeat, hwatch, hother⟩ := hnames
  show (x.card.name = telemetryAction → x.card.period = a.telemetryPeriod) ∧
    (x.card.name = heartbeatAction → x.card.period = a.heartbeatPeriod)
  unfold actionsOf at hcard
  simp only [List.mem_cons, List.not_mem_nil, or_false] at hcard
  rcases hcard with h | h | h <;> rw [h]
  · exact ⟨fun hname => absurd hname hheartbeat, fun _ => rfl⟩
  · exact ⟨fun _ => rfl, fun hname => absurd hname.symm hheartbeat⟩
  · exact ⟨fun hname => absurd hname hwatch, fun hname => absurd hname hother⟩

theorem InStep.exists_action (h : a.InStep s lent) {y : Action Operation}
    (hy : y ∈ actionsOf a.telemetryPeriod a.heartbeatPeriod) :
    ∃ x ∈ a.agenda.actions, x.name = y.name := by
  obtain ⟨x, hx, hcard⟩ := List.mem_map.mp (h.actions.symm.subset hy)
  have hname : x.card.name = y.name := congrArg Action.name hcard
  exact ⟨x, hx, hname⟩

/-- The period between reports is that of its action and of telemetry, and in whole
milliseconds that of telemetry's worker and of every monitor; the period between
heartbeats is that of its action. Neither is out of its bounds. -/
theorem Life.periods_in_step (h : Life s a) :
    (∃ u t, a.crew.workers.find? telemetryWorker = some u ∧ u.unit = .telemetry t ∧
        u.period = Duration.wholeMillis a.telemetryPeriod ∧ t.period = a.telemetryPeriod ∧
        ∀ name st, t.stations.find? name = some st →
          st.period = Duration.wholeMillis a.telemetryPeriod) ∧
      ((∃ x ∈ a.agenda.actions, x.name = telemetryAction) ∧
        ∀ x ∈ a.agenda.actions, x.name = telemetryAction → x.period = a.telemetryPeriod) ∧
      ((∃ x ∈ a.agenda.actions, x.name = heartbeatAction) ∧
        ∀ x ∈ a.agenda.actions, x.name = heartbeatAction → x.period = a.heartbeatPeriod) ∧
      (a.telemetryPeriod = s.telemetryPeriod ∨ Duration.ofSeconds 15 ≤ a.telemetryPeriod) ∧
      (s.heartbeatPeriod ≠ 0 → a.heartbeatPeriod ≠ 0) := by
  have hin := h.inStep
  obtain ⟨u, hu, hserves⟩ := hin.worker
  obtain ⟨t, hunit, ht⟩ := hserves.follows.unit
  refine ⟨⟨u, t, hu, hunit, hserves.follows.period, ht.own, ht.stations⟩, ⟨?_, ?_⟩, ⟨?_, ?_⟩,
    hin.floor, hin.beating⟩
  · exact hin.exists_action (.tail _ (.head _))
  · exact fun x hx => (hin.period_of_name hx).1
  · exact hin.exists_action (.head _)
  · exact fun x hx => (hin.period_of_name hx).2

/-! ## A startup -/

def frugal : Settings where
  excluded := some
    "coe_resources,container_stats,network,nuvlaedge_info,power,temperature,vulnerabilities"

/-- The first report is answered with other periods. -/
def hasty : Remote where
  telemetry := ⟨[{ verdict := .respond (.ofDocument (Table.ofList
    [("refresh-interval", .ofNat 30), ("heartbeat-interval", .ofNat 25)])) }]⟩

def started : Timeline Agent :=
  match Agent.new frugal 0 { server := .remote hasty } with
  | (.ok part, world) => (awaitStartup { part, world, patience := 6 }).2
  | (.error _, world) => { part := ⟨{}, agendaOf 0 0 0, {}, 0, 0, .absent, false⟩, world }

theorem started_periods :
    (Agent.new frugal 0 { server := .remote hasty }).1.isOk = true ∧
      started.part.telemetryPeriod = Duration.ofSeconds 30 ∧
      started.part.heartbeatPeriod = Duration.ofSeconds 25 := by decide +kernel

theorem life_started : Life frugal started.part := by
  have hok := started_periods.1
  unfold started
  rcases hnew : Agent.new frugal 0 { server := .remote hasty } with ⟨e | part, world⟩
  · rw [hnew] at hok
    cases hok
  · have hpart : (Agent.new frugal 0 { server := .remote hasty }).1 = .ok part := by rw [hnew]
    obtain ⟨⟨_, hfree⟩, crew, hnew⟩ := new_spec hpart
    have hidle : part.isIdle = true := by rw [hnew]; rfl
    exact .startup (.new 0 _ hpart) hidle hfree

theorem periods_in_step_started :
    Life frugal started.part ∧ started.part.telemetryPeriod = Duration.ofSeconds 30 ∧
      started.part.heartbeatPeriod = Duration.ofSeconds 25 ∧
      ∃ u t, started.part.crew.workers.find? telemetryWorker = some u ∧ u.unit = .telemetry t ∧
        u.period = Duration.wholeMillis started.part.telemetryPeriod ∧
        t.period = started.part.telemetryPeriod ∧
        ∀ name st, t.stations.find? name = some st →
          st.period = Duration.wholeMillis started.part.telemetryPeriod :=
  ⟨life_started, started_periods.2.1, started_periods.2.2, life_started.periods_in_step.1⟩

end EdgeAgent.Agent
