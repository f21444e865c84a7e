import EdgeAgent.Agent.Startup
import EdgeAgent.Proofs.Agent.Periods
import EdgeAgent.Proofs.Worker.Waiting

/-! # Agents without a loop

Before the loop is started and after it is left, the workers go on, units are lent, and
reports are sent from outside. Of the agent this changes its workers, and what an
accepted answer changes.
-/

namespace EdgeAgent.Agent

def isIdle (a : Agent) : Bool :=
  match a.loop with
  | .absent | .left _ => true
  | .asleep _ | .waiting _ => false

variable {a : Agent}

/-! ## What only the workers notice -/

theorem sendReport_crew {a' : Agent} {now : Nat} {w w' : World} {sent : Sent}
    (h : a.sendReport now w = some (sent, a', w')) : ∃ crew, a' = { a with crew } := by
  obtain ⟨_, hc, _⟩ := sendReport_eq_some h
  obtain ⟨_, _, rfl, _⟩ := collect_eq_some hc
  exact ⟨_, rfl⟩

theorem gather_crew (a : Agent) (now : Nat) (w : World) :
    ∃ crew, (a.gather now w).1 = { a with crew } := by
  unfold Agent.gather
  cases a.telemetry? with
  | none => exact ⟨a.crew, rfl⟩
  | some t => exact ⟨_, rfl⟩

theorem watch_crew (a : Agent) (now : Nat) (w : World) :
    ∃ crew, (a.watch now w).1 = { a with crew } := by
  unfold Agent.watch
  dsimp only
  split <;> exact ⟨_, rfl⟩

theorem turn_of_isIdle (h : a.isIdle = true) (now : Nat) (w : World) :
    (a.turn now w).1 = { a with crew := (a.crew.turn now w).1 } := by
  have hdue : a.loopDue now = none := by
    unfold isIdle at h
    unfold loopDue
    cases hl : a.loop <;> simp [hl] at h ⊢
  unfold Agent.turn
  rw [hdue]
  rfl

variable {s : Settings} {lent : Bool}

theorem InStep.gather (h : a.InStep s lent) (now : Nat) (w : World) :
    (a.gather now w).1.InStep s lent := by
  unfold Agent.gather
  cases ht : a.telemetry? with
  | none => exact h
  | some t => exact h.putUnit ((h.telemetry ht).gather now w)

/-! ## Standing -/

/-- A fact about agents that no change of the workers and no answer can end. -/
structure Calm (P : Agent → Prop) : Prop where
  crew : ∀ {a : Agent} crew, P a → P { a with crew }
  accept : ∀ {a : Agent} p r w, P a → P (a.accept p r w).1

/-- Only the workers go on, the copies of the periods agree, and a fact holds on. -/
structure Standing (s : Settings) (P : Agent → Prop) (born : Nat) (lent : Bool)
    (t : Timeline Agent) : Prop where
  inStep : t.part.InStep s lent
  idle : t.part.isIdle = true
  fact : P t.part
  born_le : born ≤ t.now

variable {P : Agent → Prop} {born : Nat} {t : Timeline Agent}

theorem Standing.act (h : Standing s P born lent t) (hP : Calm P) {other : Bool}
    {f : Agent → Nat → World → Agent × World}
    (hcrew : ∃ crew, (f t.part t.now t.count.world).1 = { t.part with crew })
    (hf : (f t.part t.now t.count.world).1.InStep s other) :
    Standing s P born other (t.act f) := by
  obtain ⟨crew, hpart⟩ := hcrew
  have hacted : (t.act f).part = { t.part with crew } := hpart
  refine ⟨hf, ?_, ?_, h.born_le⟩
  · rw [hacted]
    exact h.idle
  · rw [hacted]
    exact hP.crew crew h.fact

theorem Standing.modify (h : Standing s P born lent t) (hP : Calm P) {other : Bool} (name : String)
    (f : Nat → Worker Duty Duty.Param Duty.Act → Worker Duty Duty.Param Duty.Act)
    (hf : ({ t.part with crew := t.part.crew.modify name (f t.now) } : Agent).InStep s other) :
    Standing s P born other
      (t.act fun a now w => ({ a with crew := a.crew.modify name (f now) }, w)) :=
  ⟨hf, h.idle, hP.crew _ h.fact, h.born_le⟩

theorem Standing.take (h : Standing s P born lent t) (hP : Calm P) (instant : Nat) :
    Standing s P born lent (t.take instant) := by
  have hturn := turn_of_isIdle h.idle (max t.now instant) t.count.world
  have hpart : (t.take instant).part = (t.part.turn (max t.now instant) t.count.world).1 := rfl
  have hlater : t.now ≤ (t.take instant).now := Nat.le_max_left ..
  refine ⟨?_, ?_, ?_, Nat.le_trans h.born_le hlater⟩
  · rw [hpart, hturn]
    exact h.inStep.crewTurn _ _
  · rw [hpart, hturn]
    exact h.idle
  · rw [hpart, hturn]
    exact hP.crew _ h.fact

theorem Standing.await (h : Standing s P born lent t) (hP : Calm P) (done : Agent → Bool) :
    Standing s P born lent (t.await done) :=
  Timeline.run_keeps (fun _ instant ht _ => ht.take hP instant) done _ h

theorem Standing.awaitAtMost (h : Standing s P born lent t) (hP : Calm P) (done : Agent → Bool)
    (span : Nat) : Standing s P born lent (t.awaitAtMost done span) := by
  unfold Timeline.awaitAtMost
  split
  · exact h
  · have hrun : ∀ limit, Standing s P born lent (t.run (some limit) done t.patience) := fun _ =>
      Timeline.run_keeps (fun _ instant ht _ => ht.take hP instant) done t.patience h
    have hlimit := Instant.le_endOfWait t.now span
    have hborn := h.born_le
    dsimp only
    split
    · exact hrun _
    · refine ⟨(hrun _).inStep, (hrun _).idle, (hrun _).fact, ?_⟩
      dsimp only
      omega

/-! ## Startup and shutdown -/

theorem Standing.withTelemetry (h : Standing s P born false t) (hP : Calm P)
    (hfree : ∀ u, t.part.crew.workers.find? telemetryWorker = some u → u.claims = [])
    {f : Timeline Agent → Timeline Agent}
    (hf : ∀ t, Standing s P born true t → Standing s P born true (f t)) :
    Standing s P born false (withUnit t telemetryWorker f) := by
  have hlent := h.modify hP telemetryWorker (fun now u => u.borrow now) (h.inStep.lend hfree t.now)
  have hdone := hf _ (hlent.await hP (·.crew.hasLent telemetryWorker))
  exact hdone.modify hP telemetryWorker (fun now u => u.giveBack now) (hdone.inStep.giveBack _)

theorem Standing.withOther (h : Standing s P born lent t) (hP : Calm P) {name : String}
    (hname : name ≠ telemetryWorker) {f : Timeline Agent → Timeline Agent}
    (hf : ∀ t, Standing s P born lent t → Standing s P born lent (f t)) :
    Standing s P born lent (withUnit t name f) := by
  have hlent := h.modify hP name (fun now u => u.borrow now) (h.inStep.modifyOther hname _)
  have hdone := hf _ (hlent.await hP (·.crew.hasLent name))
  exact hdone.modify hP name (fun now u => u.giveBack now) (hdone.inStep.modifyOther hname _)

theorem Standing.awaitCommission (h : Standing s P born lent t) (hP : Calm P) :
    Standing s P born lent (awaitCommission t) := by
  unfold Agent.awaitCommission
  split
  · exact h
  · rename_i c hc
    have hother : commissionerWorker ≠ telemetryWorker := by decide
    have hpause := fun span => Standing.awaitAtMost (t := (t.ask fun a now w =>
      let answer := Duty.perform (.commissioner c) now w
      (answer.1, a, answer.2)).2) ⟨h.inStep, h.idle, h.fact, h.born_le⟩ hP (fun _ => false) span
    dsimp only
    refine (hpause _).act hP ?_ ?_
    · dsimp only
      split <;> exact ⟨_, rfl⟩
    · dsimp only
      split
      · exact (hpause _).inStep.modifyOther hother _
      · exact (hpause _).inStep

theorem Standing.accept (h : Standing s P born lent t) (hP : Calm P) (p : Option Payload)
    (r : Response) : Standing s P born lent (t.act fun a _ w => a.accept p r w) := by
  have hloop := (accept_spec t.part p r t.count.world).2
  refine ⟨h.inStep.accept p r t.count.world, ?_, hP.accept p r t.count.world h.fact, h.born_le⟩
  show (t.part.accept p r t.count.world).1.isIdle = true
  unfold isIdle
  rw [hloop]
  exact h.idle

theorem Standing.awaitReport (h : Standing s P born lent t) (hP : Calm P) :
    Standing s P born lent (awaitReport t).2 := by
  unfold Agent.awaitReport
  cases hs : t.part.sendReport t.now t.world with
  | none => exact h
  | some out =>
      obtain ⟨sent, part, world⟩ := out
      have hstep := h.inStep.sendReport hs
      obtain ⟨crew, rfl⟩ := sendReport_crew hs
      have hsent : Standing s P born lent { t with part := { t.part with crew }, world } :=
        ⟨hstep, h.idle, hP.crew crew h.fact, h.born_le⟩
      have hpause := hsent.awaitAtMost hP (fun _ => false) sent.exchange.delay
      dsimp only
      cases sent.exchange.outcome with
      | error e => exact hpause
      | ok r => exact hpause.accept hP (some sent.payload) r

theorem Standing.awaitStartup (h : Standing s P born false t) (hP : Calm P)
    (hfree : ∀ u, t.part.crew.workers.find? telemetryWorker = some u → u.claims = []) :
    Standing s P born false (awaitStartup t).2 := by
  have hother : commissionerWorker ≠ telemetryWorker := by decide
  have hgathered := h.withTelemetry hP hfree
    (f := fun t => (t.act Agent.gather).await hasGathered) fun t ht =>
      (ht.act hP (gather_crew _ _ _) (ht.inStep.gather _ _)).await hP hasGathered
  have hcommissioned := hgathered.withOther hP hother fun _ ht => ht.awaitCommission hP
  exact hcommissioned.awaitReport hP

theorem Standing.awaitShutdown (h : Standing s P born lent t) (hP : Calm P) :
    Standing s P born lent (awaitShutdown t).2 := by
  have hmonitors := h.inStep.modify telemetryWorker fun _ u hu =>
    hu.withUnit (Duty.mapTelemetry_follows hu.follows.unit fun _ ht => ht.stopAll)
  have hstopped : Standing s P born lent (t.act fun a _ w =>
      ({ a with crew := (a.crew.modify telemetryWorker fun u =>
          { u with unit := u.unit.mapTelemetry Telemetry.stopAll }).stop }, w)) :=
    h.act hP ⟨_, rfl⟩ (hmonitors.mapWorkers (f := (·.stop)) rfl
      fun u hu => ⟨hu.follows.stop, hu.guests⟩)
  have hwaited := hstopped.awaitAtMost hP (·.crew.hasEnded)
  refine ⟨?_, (hwaited _).idle, hP.crew _ (hwaited _).fact, (hwaited _).born_le⟩
  refine (hwaited _).inStep.mapWorkers (f := (·.confirmEnd.2)) rfl fun u hu => ?_
  exact ⟨hu.follows.confirmEnd, by rw [Worker.confirmEnd_claims]; exact hu.guests⟩

/-! ## New agents -/

theorem new_spec {now : Nat} {w : World} (h : (Agent.new s now w).1 = .ok a) :
    (a.InStep s false ∧ ∀ u, a.crew.workers.find? telemetryWorker = some u → u.claims = []) ∧
      ∃ crew, a = {
        crew
        agenda := agendaOf s.telemetryPeriod s.heartbeatPeriod now
        telemetryPeriod := s.telemetryPeriod
        heartbeatPeriod := s.heartbeatPeriod } := by
  unfold Agent.new at h
  dsimp only at h
  split at h
  · cases h
  · rename_i first w₁ hfirst
    split at h
    · cases h
    · rename_i second w₂ hsecond
      cases h
      obtain ⟨u, w₃, hnew, hfound⟩ := (Crew.add_spec hfirst).2 rfl
      obtain ⟨hserves, hclaims⟩ := Worker.Serves.new (F := Duty.Follows) hnew
        (fun _ _ _ hbuild => Duty.build_follows hbuild) s.stopTimeout
      have hother := (Crew.add_spec hsecond).1 telemetryWorker (by decide)
      have hworker := hother.trans hfound
      have hguests : ∀ c ∈ u.claims.drop false.toNat, c.isGuest = false := by
        rw [hclaims]
        exact List.forall_mem_nil _
      refine ⟨⟨⟨⟨_, hworker, hserves, hguests⟩, .refl _, .inl rfl, id⟩, ?_⟩, _, rfl⟩
      intro v hv
      cases hworker.symm.trans hv
      exact hclaims

end EdgeAgent.Agent
