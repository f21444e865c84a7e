import EdgeAgent.Proofs.Agenda.Cards
import EdgeAgent.Proofs.Agent.Report
import EdgeAgent.Proofs.Telemetry.Periods
import EdgeAgent.Proofs.Worker.Crew
import EdgeAgent.Proofs.Worker.Queue

/-! # Periods in step

The period between reports stands with the agent, its action, the worker of telemetry,
telemetry itself and every monitor; the one between heartbeats with the agent and its
action. Whatever the server asks for and whatever is set up anew, the copies agree.
-/

namespace EdgeAgent

namespace Duty

/-- The duty is telemetry, and follows a period. -/
def Follows (period : Nat) (d : Duty) : Prop := ∃ t, d = .telemetry t ∧ t.Follows period

theorem preserves_follows : Worker.Preserves Follows := by
  rintro period u a now w ⟨t, rfl, _⟩ p u' w' ⟨t', rfl, ht'⟩
  exact ⟨_, rfl, ht'.check now w'⟩

theorem turn_follows (period : Nat) (d : Duty) (now : Nat) (w : World) (h : d.Follows period) :
    (Timed.turn d now w).1.Follows period := by
  obtain ⟨t, rfl, ht⟩ := h
  exact ⟨_, rfl, ht.turn now w⟩

theorem build_follows {excluded : Option String} {period now : Nat} {w w' : World} {fresh : Duty}
    (h : Craft.build (Param.telemetry excluded period) now w = (.ok fresh, w')) :
    fresh.Follows period := by
  cases h
  exact ⟨_, rfl, Telemetry.new_follows Builtin.registry excluded period now w⟩

theorem mapTelemetry_follows {period other : Nat} {d : Duty} (h : d.Follows period)
    {f : Telemetry Builtin → Telemetry Builtin} (hf : ∀ t, t.Follows period → (f t).Follows other) :
    (d.mapTelemetry f).Follows other := by
  obtain ⟨t, rfl, ht⟩ := h
  exact ⟨_, rfl, hf t ht⟩

end Duty

namespace Agent

def actionsOf (telemetryPeriod heartbeatPeriod : Nat) : List (Action Operation) :=
  [.new heartbeatAction "#1" .heartbeat heartbeatPeriod,
   .new telemetryAction "#2" .report telemetryPeriod,
   .new watchAction "#3" .watch watchPeriod]

/-- The worker of telemetry and its unit follow a period. Where the unit is lent, the one
who came first may be from outside, and nobody else. -/
structure Serves (s : Settings) (lent : Bool) (period : Nat)
    (u : Worker Duty Duty.Param Duty.Act) : Prop where
  follows : u.Serves Duty.Follows (.telemetry s.excluded s.telemetryPeriod) period
  guests : ∀ c ∈ u.claims.drop lent.toNat, c.isGuest = false

/-- The copies of the periods agree, and no period is out of its bounds. -/
structure InStep (s : Settings) (lent : Bool) (a : Agent) : Prop where
  worker : ∃ u, a.crew.workers.find? telemetryWorker = some u ∧ Serves s lent a.telemetryPeriod u
  actions : a.agenda.cards.Perm (actionsOf a.telemetryPeriod a.heartbeatPeriod)
  floor : a.telemetryPeriod = s.telemetryPeriod ∨ Crew.minPeriod ≤ a.telemetryPeriod
  beating : s.heartbeatPeriod ≠ 0 → a.heartbeatPeriod ≠ 0

variable {s : Settings} {lent : Bool} {a : Agent}

theorem Serves.withUnit {period : Nat} {u : Worker Duty Duty.Param Duty.Act}
    (h : Serves s lent period u) {d : Duty} (hd : d.Follows period) :
    Serves s lent period { u with unit := d } :=
  ⟨Worker.Serves.withUnit h.follows hd, h.guests⟩

/-! ## Workers -/

theorem InStep.withCrew (h : a.InStep s lent) {crew : Crew Duty Duty.Param Duty.Act}
    (hcrew : ∀ u, a.crew.workers.find? telemetryWorker = some u →
      Serves s lent a.telemetryPeriod u →
        ∃ u', crew.workers.find? telemetryWorker = some u' ∧ Serves s lent a.telemetryPeriod u') :
    ({ a with crew } : Agent).InStep s lent := by
  obtain ⟨u, hu, hserves⟩ := h.worker
  exact ⟨hcrew u hu hserves, h.actions, h.floor, h.beating⟩

theorem InStep.modify (h : a.InStep s lent) (name : String)
    {f : Worker Duty Duty.Param Duty.Act → Worker Duty Duty.Param Duty.Act}
    (hf : name = telemetryWorker → ∀ u, Serves s lent a.telemetryPeriod u →
      Serves s lent a.telemetryPeriod (f u)) :
    ({ a with crew := a.crew.modify name f } : Agent).InStep s lent := by
  refine h.withCrew fun u hu hserves => ?_
  rw [Crew.find?_modify, hu]
  refine ⟨_, rfl, ?_⟩
  split
  · rename_i heq
    exact hf heq.symm u hserves
  · exact hserves

theorem InStep.modifyOther (h : a.InStep s lent) {name : String} (hname : name ≠ telemetryWorker)
    (f : Worker Duty Duty.Param Duty.Act → Worker Duty Duty.Param Duty.Act) :
    ({ a with crew := a.crew.modify name f } : Agent).InStep s lent :=
  h.modify name fun heq => (hname heq).elim

theorem InStep.mapWorkers (h : a.InStep s lent) {crew : Crew Duty Duty.Param Duty.Act}
    {f : Worker Duty Duty.Param Duty.Act → Worker Duty Duty.Param Duty.Act}
    (hcrew : crew.workers = a.crew.workers.mapRows fun _ u => f u)
    (hf : ∀ u, Serves s lent a.telemetryPeriod u → Serves s lent a.telemetryPeriod (f u)) :
    ({ a with crew } : Agent).InStep s lent := by
  refine h.withCrew fun u hu hserves => ?_
  rw [hcrew, Table.find?_mapRows, hu]
  exact ⟨_, rfl, hf u hserves⟩

theorem InStep.putUnit (h : a.InStep s lent) {t : Telemetry Builtin}
    (ht : t.Follows a.telemetryPeriod) :
    (a.putUnit telemetryWorker (.telemetry t)).InStep s lent :=
  h.modify telemetryWorker fun _ _ hu => hu.withUnit ⟨t, rfl, ht⟩

theorem InStep.lend (h : a.InStep s false)
    (hfree : ∀ u, a.crew.workers.find? telemetryWorker = some u → u.claims = []) (now : Nat) :
    ({ a with crew := a.crew.modify telemetryWorker fun u => u.borrow now } : Agent).InStep
      s true := by
  obtain ⟨u, hu, hserves⟩ := h.worker
  have hlent : Serves s true a.telemetryPeriod (u.borrow now) := by
    refine ⟨hserves.follows.borrow now, ?_⟩
    rw [Worker.borrow, Worker.claim_of_no_swap hserves.follows.queued.no_swap rfl, hfree u hu]
    exact List.forall_mem_nil _
  refine ⟨⟨_, ?_, hlent⟩, h.actions, h.floor, h.beating⟩
  dsimp only
  rw [Crew.find?_modify, hu, Option.map_some, if_pos rfl]

theorem InStep.giveBack (h : a.InStep s true) (now : Nat) :
    ({ a with crew := a.crew.modify telemetryWorker fun u => u.giveBack now } : Agent).InStep
      s false := by
  obtain ⟨u, hu, hserves⟩ := h.worker
  have hback : Serves s false a.telemetryPeriod (u.giveBack now) :=
    ⟨hserves.follows.giveBack now, Worker.giveBack_claims hserves.guests now⟩
  refine ⟨⟨_, ?_, hback⟩, h.actions, h.floor, h.beating⟩
  dsimp only
  rw [Crew.find?_modify, hu, Option.map_some, if_pos rfl]

theorem InStep.telemetry (h : a.InStep s lent) {t : Telemetry Builtin}
    (ht : a.telemetry? = some t) : t.Follows a.telemetryPeriod := by
  obtain ⟨u, hu, hserves⟩ := h.worker
  obtain ⟨t', hunit, ht'⟩ := hserves.follows.unit
  unfold telemetry? at ht
  rw [hu, Option.bind_some, hunit] at ht
  cases ht
  exact ht'

theorem InStep.crewTurn (h : a.InStep s lent) (now : Nat) (w : World) :
    ({ a with crew := (a.crew.turn now w).1 } : Agent).InStep s lent := by
  refine h.withCrew fun u hu hserves => ?_
  rcases Crew.find?_turn a.crew now w telemetryWorker with hkept | ⟨u', hu', hturn⟩
  · exact ⟨u, hkept.trans hu, hserves⟩
  · cases hu.symm.trans hu'
    refine ⟨_, hturn, hserves.follows.turn Duty.preserves_follows Duty.turn_follows now w, ?_⟩
    intro c hc
    rcases Worker.turn_claims u now w _ c hc with hc | rfl
    · exact hserves.guests c hc
    · rfl

/-! ## Answers of the server -/

theorem InStep.adoptTelemetryPeriod (h : a.InStep s lent) (period : Nat) :
    (a.adoptTelemetryPeriod period).InStep s lent := by
  by_cases hlong : a.crew.workers.contains telemetryWorker = true ∧ Crew.minPeriod ≤ period
  · have hedit : a.crew.editPeriod telemetryWorker period =
        (true, a.crew.modify telemetryWorker fun u => u.setPeriod period) := by
      simp [Crew.editPeriod, Crew.modify, hlong]
    obtain ⟨u, hu, hserves⟩ := h.worker
    unfold Agent.adoptTelemetryPeriod
    rw [hedit]
    refine ⟨⟨{ u.setPeriod period with unit := u.unit.mapTelemetry (·.setPeriod period) }, ?_, ?_⟩,
      ?_, .inr hlong.2, h.beating⟩
    · simp only [setTelemetryUnitPeriod, Crew.find?_modify, hu, Option.map_some, if_true]
      rfl
    · exact ⟨hserves.follows.adopt
        (Duty.mapTelemetry_follows hserves.follows.unit fun t _ => t.setPeriod_follows period),
        hserves.guests⟩
    · dsimp only
      rw [Agenda.editPeriod_cards]
      exact h.actions.map _
  · have hedit : a.crew.editPeriod telemetryWorker period = (false, a.crew) := by
      unfold Crew.editPeriod
      rw [if_neg]
      simpa using hlong
    unfold Agent.adoptTelemetryPeriod
    rw [hedit]
    exact h

theorem InStep.adoptHeartbeatPeriod (h : a.InStep s lent) {period : Nat} (hperiod : period ≠ 0) :
    (a.adoptHeartbeatPeriod period).InStep s lent := by
  refine ⟨h.worker, ?_, h.floor, fun _ => hperiod⟩
  unfold Agent.adoptHeartbeatPeriod
  rw [Agenda.editPeriod_cards]
  exact h.actions.map _

theorem InStep.adopt (h : a.InStep s lent) (r : Response) : (a.adopt r).InStep s lent := by
  unfold Agent.adopt
  extract_lets b
  have hb : b.InStep s lent := by
    unfold b
    split
    · split
      · exact h
      · exact h.adoptTelemetryPeriod _
    · exact h
  clear_value b
  split
  · split
    · exact hb
    · rename_i hother
      exact hb.adoptHeartbeatPeriod (not_or.mp hother).2
  · exact hb

theorem InStep.accept (h : a.InStep s lent) (p : Option Payload) (r : Response) (w : World) :
    (a.accept p r w).1.InStep s lent := by
  cases p with
  | none => exact h.adopt r
  | some p =>
      have h : ({ a with accepted := p } : Agent).InStep s lent :=
        ⟨h.worker, h.actions, h.floor, h.beating⟩
      exact h.adopt r

/-! ## Operations -/

theorem InStep.collect (h : a.InStep s lent) {w w' : World} {p : Payload} {a' : Agent}
    (hcollect : a.collect w = some (p, a', w')) : a'.InStep s lent := by
  obtain ⟨t, ht, rfl, _⟩ := collect_eq_some hcollect
  exact h.putUnit ((h.telemetry ht).snapshot w)

theorem InStep.sendReport (h : a.InStep s lent) {now : Nat} {w w' : World} {sent : Sent}
    {a' : Agent} (hsend : a.sendReport now w = some (sent, a', w')) : a'.InStep s lent := by
  obtain ⟨_, hc, _⟩ := sendReport_eq_some hsend
  exact h.collect hc

theorem setTelemetryUnitPeriod_worker (a : Agent) (period : Nat)
    {u : Worker Duty Duty.Param Duty.Act} (hu : a.crew.workers.find? telemetryWorker = some u) :
    (a.setTelemetryUnitPeriod period).crew.workers.find? telemetryWorker =
      some { u with unit := u.unit.mapTelemetry (·.setPeriod period) } := by
  unfold setTelemetryUnitPeriod
  rw [Crew.find?_modify, hu]
  rfl

/-- A worker that is set up anew begins with the period it was configured with, and is
then given the one in force. -/
theorem InStep.watch (h : a.InStep s false) (now : Nat) (w : World) :
    (a.watch now w).1.InStep s false := by
  obtain ⟨u, hu, hserves⟩ := h.worker
  unfold Agent.watch
  dsimp only
  rcases Crew.find?_heal a.crew now w telemetryWorker with
    hkept | ⟨u', fresh, w₁, w₂, hu', hstands, hreset, hfresh, hhealed⟩
  · have hfound := hkept.trans hu
    split
    · exact ⟨⟨u, hfound, hserves⟩, h.actions, h.floor, h.beating⟩
    · have hset := setTelemetryUnitPeriod_worker { a with crew := (a.crew.heal now w).2.1 }
        a.telemetryPeriod hfound
      have hunit := Duty.mapTelemetry_follows hserves.follows.unit fun t _ =>
        t.setPeriod_follows a.telemetryPeriod
      exact ⟨⟨_, hset, hserves.withUnit hunit⟩, h.actions, h.floor, h.beating⟩
  · cases hu.symm.trans hu'
    obtain ⟨hclaims, ⟨w₃, hbuild⟩, hplaced⟩ :=
      hserves.follows.reset hstands hserves.guests hreset
    have hset := setTelemetryUnitPeriod_worker { a with crew := (a.crew.heal now w).2.1 }
      a.telemetryPeriod hfresh
    have hunit := Duty.mapTelemetry_follows (Duty.build_follows hbuild) fun t _ =>
      t.setPeriod_follows a.telemetryPeriod
    -- The fresh unit was built with the configured period, whatever is in force by now.
    rw [if_neg hhealed]
    refine ⟨⟨_, hset, hplaced _ hunit, ?_⟩, h.actions, h.floor, h.beating⟩
    intro c hc
    rw [Bool.toNat_false, List.drop_zero, hclaims] at hc
    cases hc

/-! ## The loop -/

theorem InStep.withLoop (h : a.InStep s lent) (loop : AgentLoop) :
    ({ a with loop } : Agent).InStep s lent := ⟨h.worker, h.actions, h.floor, h.beating⟩

theorem InStep.rest (h : a.InStep s lent) (now : Nat) (w : World) :
    (a.rest now w).InStep s lent := by
  unfold Agent.rest
  split
  · exact ⟨h.worker, (Agenda.sleepTime_cards ‹_›).trans h.actions, h.floor, h.beating⟩
  · exact h.withLoop _

theorem InStep.startCrew (h : a.InStep s lent) (now : Nat) :
    ({ a with crew := a.crew.start now } : Agent).InStep s lent := by
  refine h.mapWorkers (f := fun u => u.start now) rfl fun u hu => ?_
  refine ⟨hu.follows.start now, ?_⟩
  rw [Worker.start_claims]
  exact hu.guests

theorem InStep.start (h : a.InStep s lent) (now : Nat) (w : World) :
    (a.start now w).InStep s lent := (h.startCrew now).rest now w

theorem InStep.dispatch (h : a.InStep s false) (x : Action Operation) (now : Nat) (w : World) :
    (a.dispatch x now w).1.InStep s false := by
  unfold Agent.dispatch
  cases x.task with
  | heartbeat => exact h.withLoop _
  | watch => exact (h.watch now w).rest now _
  | report =>
      cases hs : a.sendReport now w with
      | none => exact h.rest now w
      | some out =>
          obtain ⟨sent, b, v⟩ := out
          have hb := h.sendReport hs
          exact hb.withLoop _

theorem InStep.beginCycle (h : a.InStep s false) (now : Nat) (w : World) :
    (a.beginCycle now w).1.InStep s false := by
  unfold Agent.beginCycle
  dsimp only
  cases hcall : a.agenda.callNext now with
  | error fault => exact h.withLoop _
  | ok found =>
      obtain ⟨fired, agenda⟩ := found
      have hactions := (Agenda.callNext_cards hcall).1.trans h.actions
      have hcalled : ({ a with agenda } : Agent).InStep s false :=
        ⟨h.worker, hactions, h.floor, h.beating⟩
      cases fired with
      | none => exact hcalled.rest now _
      | some x => exact hcalled.dispatch x now _

theorem InStep.endCycle (h : a.InStep s lent) (e : Errand) (now : Nat) (w : World) :
    (a.endCycle e now w).1.InStep s lent := by
  unfold Agent.endCycle
  split
  · cases e.outcome with
    | ok r => exact (h.accept e.payload r w).rest now _
    | error x => exact h.rest now w
  · exact h.rest now w

theorem InStep.loopTurn (h : a.InStep s false) (now : Nat) (w : World) :
    (a.loopTurn now w).1.InStep s false := by
  unfold Agent.loopTurn
  cases a.loop with
  | absent | left _ => exact h
  | asleep wake =>
      dsimp only
      split
      · exact h.withLoop _
      · exact h.beginCycle now w
  | waiting e => exact h.endCycle e now w

theorem InStep.turn (h : a.InStep s false) (now : Nat) (w : World) :
    (a.turn now w).1.InStep s false := by
  unfold Agent.turn
  split
  · exact h.loopTurn now w
  · exact h.crewTurn now w

end Agent
end EdgeAgent
