import EdgeAgent.Agent.Basic
import EdgeAgent.Proofs.Worker.Crew

/-! # Reports of an agent

What the operations of an agent do to the payload that it takes for accepted and to
the report that it waits for. Only a report that ends in time, with the server's
consent, changes the former; the request of a report on its way is the last one
that has reached the server.
-/

namespace EdgeAgent

/-- The payload of a report that is answered in time and accepted. -/
def Errand.confirmed? (e : Errand) : Option Payload :=
  if e.ending.rings ≤ e.drop.rings then
    match e.outcome with
    | .ok _ => e.payload
    | .error _ => none
  else none

theorem Errand.payload_of_confirmed? {e : Errand} {p : Payload} (h : e.confirmed? = some p) :
    e.payload = some p := by
  unfold confirmed? at h
  split at h
  · cases ho : e.outcome with
    | ok r => simpa [ho] using h
    | error x => simp [ho] at h
  · cases h

namespace Agent

/-! ## What an operation leaves alone -/

theorem rest_accepted (a : Agent) (now : Nat) (w : World) :
    (a.rest now w).accepted = a.accepted := by
  unfold rest
  split <;> rfl

/-- The payload of the report whose answer the loop waits for. -/
def reported? (a : Agent) : Option Payload :=
  match a.loop with
  | .waiting e => e.payload
  | _ => none

theorem rest_reported? (a : Agent) (now : Nat) (w : World) : (a.rest now w).reported? = none := by
  unfold rest
  split <;> rfl

theorem adoptTelemetryPeriod_spec (a : Agent) (period : Nat) :
    (a.adoptTelemetryPeriod period).accepted = a.accepted ∧
      (a.adoptTelemetryPeriod period).loop = a.loop := by
  unfold adoptTelemetryPeriod
  split <;> exact ⟨rfl, rfl⟩

theorem adopt_spec (a : Agent) (r : Response) :
    (a.adopt r).accepted = a.accepted ∧ (a.adopt r).loop = a.loop := by
  unfold adopt
  dsimp only
  repeat' split
  all_goals first
    | exact ⟨rfl, rfl⟩
    | exact adoptTelemetryPeriod_spec a _

theorem accept_spec (a : Agent) (p : Option Payload) (r : Response) (w : World) :
    (a.accept p r w).1.accepted = p.getD a.accepted ∧ (a.accept p r w).1.loop = a.loop := by
  unfold accept
  dsimp only
  cases p with
  | none => exact adopt_spec a r
  | some p => exact adopt_spec { a with accepted := p } r

theorem watch_accepted (a : Agent) (now : Nat) (w : World) :
    (a.watch now w).1.accepted = a.accepted := by
  unfold watch
  dsimp only
  split <;> rfl

/-! ### Building units

Whatever a note on the status board leaves of the surroundings, building leaves too.
-/

theorem setUp_world (excluded : List String) (period now : Nat)
    (registry : List (Registration Builtin)) (stations : Table (Station Builtin)) (w : World)
    (h : ∀ r ∈ registry, ∀ w, (r.build w).2 = w) :
    (Telemetry.setUp excluded period now registry stations w).2 = w := by
  induction registry generalizing stations w with
  | nil => rfl
  | cons r rest ih =>
      have hrest := fun stations w => ih stations w fun r hr => h r (List.mem_cons_of_mem _ hr)
      unfold Telemetry.setUp
      split
      · exact hrest stations w
      · exact (hrest _ _).trans (h r List.mem_cons_self w)

theorem build_world {β : Type} {f : World → β}
    (hsay : ∀ w origin status note, f (World.say w origin status note) = f w) (p : Duty.Param)
    (now : Nat) (w : World) : f (Craft.build (υ := Duty) p now w).2 = f w := by
  cases p with
  | commissioner uuid file => exact hsay w _ _ _
  | telemetry excluded period =>
      have hregistry : ∀ r ∈ Builtin.registry, ∀ w, (r.build w).2 = w := by
        simp [Builtin.registry]
      have hsetUp := setUp_world (Exclusion.ofSetting excluded) period now Builtin.registry
        Table.empty w hregistry
      exact (hsay _ _ _ _).trans (congrArg f hsetUp)

theorem watch_world {β : Type} {f : World → β}
    (hsay : ∀ w origin status note, f (World.say w origin status note) = f w) (a : Agent)
    (now : Nat) (w : World) : f (a.watch now w).2 = f w :=
  Crew.healRows_world (build_world hsay) now a.crew.workers.rows a.crew.workers w

/-! ### Collecting -/

/-- What is collected comes from telemetry. Of the agent only its unit changes, and of the
surroundings only the board. -/
theorem collect_eq_some {a b : Agent} {w v : World} {p : Payload}
    (h : a.collect w = some (p, b, v)) :
    ∃ t, a.telemetry? = some t ∧
      b = a.putUnit telemetryWorker (.telemetry (t.snapshot w).2.1) ∧
        ∃ board, v = { w with board } := by
  unfold collect at h
  cases ht : a.telemetry? with
  | none => simp [ht] at h
  | some t =>
      simp only [ht, Option.bind_eq_bind, Option.bind_some, Option.pure_def, Option.some.injEq,
        Prod.mk.injEq] at h
      obtain ⟨_, hb, hv⟩ := h
      exact ⟨t, rfl, hb.symm, _, hv.symm⟩

theorem collect_spec {a a' : Agent} {w w' : World} {p : Payload}
    (h : a.collect w = some (p, a', w')) :
    a'.accepted = a.accepted ∧ a'.loop = a.loop ∧ w'.server = w.server := by
  obtain ⟨t, _, rfl, board, rfl⟩ := collect_eq_some h
  exact ⟨rfl, rfl, rfl⟩

theorem sendReport_eq_some {a b : Agent} {now : Nat} {w v : World} {sent : Sent}
    (h : a.sendReport now w = some (sent, b, v)) :
    ∃ u, a.collect w = some (sent.payload, b, u) ∧
      u.send now (reportRequest a.accepted sent.payload) = (sent.exchange, v) := by
  unfold sendReport at h
  cases hc : a.collect w with
  | none => simp [hc] at h
  | some c =>
      obtain ⟨p, b', u⟩ := c
      have haccepted := (collect_spec hc).1
      simp only [hc, Option.bind_eq_bind, Option.bind_some, Option.pure_def, Option.some.injEq,
        Prod.mk.injEq] at h
      obtain ⟨rfl, rfl, rfl⟩ := h
      exact ⟨u, rfl, by rw [haccepted]⟩

/-! ## Requests on the wire -/

def lastReport? : Server → Option (Document × List String)
  | .remote s =>
    match s.received with
    | (_, .telemetry data delete) :: _ => some (data, delete)
    | _ => none
  | .statusFile _ => none

/-- What is sent, and what is to be deleted, when a payload is reported. -/
def changesTo (accepted p : Payload) : Document × List String :=
  let changes := Payload.changes accepted p
  (p.toDocument.only changes.send, changes.delete)

theorem lastReport?_send (w : World) (s : Remote) (now : Nat) (accepted p : Payload)
    (h : w.server = .remote s) :
    lastReport? (w.send now (reportRequest accepted p)).2.server = some (changesTo accepted p) := by
  unfold World.send
  rw [h]
  rfl

theorem sendReport_spec {a a' : Agent} {w w' : World} {now : Nat} {s : Remote} {sent : Sent}
    (hw : w.server = .remote s) (h : a.sendReport now w = some (sent, a', w')) :
    a'.accepted = a.accepted ∧ a'.loop = a.loop ∧
      lastReport? w'.server = some (changesTo a.accepted sent.payload) := by
  obtain ⟨u, hc, hsent⟩ := sendReport_eq_some h
  obtain ⟨haccepted, hloop, hserver⟩ := collect_spec hc
  have hwire := lastReport?_send u s now a.accepted sent.payload (hserver.trans hw)
  rw [hsent] at hwire
  exact ⟨haccepted, hloop, hwire⟩

/-! ## Turns -/

theorem dispatch_spec (a : Agent) (x : Action Operation) (now : Nat) {w : World} {s : Remote}
    (hw : w.server = .remote s) :
    (a.dispatch x now w).1.accepted = a.accepted ∧
      ∀ p, (a.dispatch x now w).1.reported? = some p →
        lastReport? (a.dispatch x now w).2.server = some (changesTo a.accepted p) := by
  unfold dispatch
  cases x.task with
  | heartbeat => exact ⟨rfl, by simp [await, reported?]⟩
  | watch =>
      refine ⟨(rest_accepted _ _ _).trans (watch_accepted a now w), ?_⟩
      intro p hp
      simp [rest_reported?] at hp
  | report =>
      cases hs : a.sendReport now w with
      | none => exact ⟨rest_accepted a now w, by simp [rest_reported?]⟩
      | some out =>
          obtain ⟨sent, b, v⟩ := out
          obtain ⟨haccepted, _, hwire⟩ := sendReport_spec hw hs
          refine ⟨haccepted, ?_⟩
          intro p hp
          simp only [await, reported?, Option.some.injEq] at hp
          exact hp ▸ hwire

theorem beginCycle_spec (a : Agent) (now : Nat) {w : World} {s : Remote}
    (hw : w.server = .remote s) :
    (a.beginCycle now w).1.accepted = a.accepted ∧
      ∀ p, (a.beginCycle now w).1.reported? = some p →
        lastReport? (a.beginCycle now w).2.server = some (changesTo a.accepted p) := by
  unfold beginCycle
  dsimp only
  cases a.agenda.callNext now with
  | error fault => exact ⟨rfl, by simp [reported?]⟩
  | ok found =>
      obtain ⟨fired, agenda⟩ := found
      cases fired with
      | none => exact ⟨rest_accepted _ _ _, by simp [rest_reported?]⟩
      | some x => exact dispatch_spec { a with agenda } x now hw

theorem endCycle_spec (a : Agent) (e : Errand) (now : Nat) (w : World) :
    (a.endCycle e now w).1.accepted = e.confirmed?.getD a.accepted ∧
      (a.endCycle e now w).1.reported? = none := by
  unfold endCycle Errand.confirmed?
  split
  · cases e.outcome with
    | error x => exact ⟨rest_accepted _ _ _, rest_reported? _ _ _⟩
    | ok r => exact ⟨(rest_accepted _ _ _).trans (accept_spec _ _ _ _).1, rest_reported? _ _ _⟩
  · exact ⟨rest_accepted _ _ _, rest_reported? _ _ _⟩

/-- The payload of the report that a turn ends with the server's consent. -/
def confirmed? (a : Agent) (now : Nat) : Option Payload :=
  match a.loop with
  | .waiting e =>
    if Timer.isFirst (a.loopDue now) (a.crew.due now) then e.confirmed? else none
  | _ => none

theorem reported?_of_confirmed? {a : Agent} {now : Nat} {p : Payload}
    (h : a.confirmed? now = some p) : a.reported? = some p := by
  unfold confirmed? at h
  unfold reported?
  cases hl : a.loop with
  | waiting e =>
      simp only [hl] at h
      split at h
      · exact Errand.payload_of_confirmed? h
      · cases h
  | absent => simp [hl] at h
  | asleep wake => simp [hl] at h
  | left fault => simp [hl] at h

/-- What a turn does to the reports: the one waited for is still waited for, or is
ended, or there was none and one may have been sent. -/
theorem turn_spec (a : Agent) (now : Nat) {w : World} {s : Remote} (hw : w.server = .remote s) :
    (a.turn now w).1.accepted = (a.confirmed? now).getD a.accepted ∧
      ((a.turn now w).1.reported? = a.reported? ∧ a.confirmed? now = none ∨
        (a.turn now w).1.reported? = none ∨
        a.reported? = none ∧ ∀ p, (a.turn now w).1.reported? = some p →
          lastReport? (a.turn now w).2.server = some (changesTo a.accepted p)) := by
  unfold turn confirmed?
  split
  · unfold loopTurn
    cases hl : a.loop with
    | absent => exact ⟨rfl, .inl ⟨rfl, rfl⟩⟩
    | left fault => exact ⟨rfl, .inl ⟨rfl, rfl⟩⟩
    | asleep wake =>
        dsimp only
        split
        · exact ⟨rfl, .inr (.inl rfl)⟩
        · obtain ⟨haccepted, hwire⟩ := beginCycle_spec a now hw
          exact ⟨haccepted, .inr (.inr ⟨by simp [reported?, hl], hwire⟩)⟩
    | waiting e =>
        obtain ⟨haccepted, hended⟩ := endCycle_spec a e now w
        exact ⟨haccepted, .inr (.inl hended)⟩
  · refine ⟨?_, .inl ⟨rfl, ?_⟩⟩
    · cases a.loop <;> rfl
    · cases a.loop <;> rfl

end Agent
end EdgeAgent
