import EdgeAgent.Proofs.Agent.Report
import EdgeAgent.Proofs.Payload.Changes

/-! # The server mirrors what the agent remembers

Only changes are reported, so what the server holds depends on every report that
was ever accepted. An agent is watched from its beginning, in any surroundings
and with any answers, together with a document that is updated by the accepted
requests as they reached the server, and by no other. After every step that
document equals the payload that the agent remembers, and the agent remembers
another payload exactly when a report of it was accepted.
-/

namespace EdgeAgent

/-- The payload is made of JSON values, which have no infinite number and no NaN. -/
def Payload.IsFinite (p : Payload) : Prop := p.toJson.isFinite

/-! ## Watching an agent -/

/-- An agent, the report that is under way, and the document that the server keeps. -/
structure Watched where
  agent : Agent
  request : Option (Document × List String) := none
  document : Document := Table.empty

namespace Watched

/-- What may befall an agent. Every surroundings stand for all that the server, the
engine, the host and the other parts may have done in the meantime. -/
inductive Event where
  /-- The workers have become others, whatever they did. -/
  | work (crew : Crew Duty Duty.Param Duty.Act)
  /-- The loop is started; what an earlier one was waiting for is given up. -/
  | start (now : Nat) (w : World)
  | stop
  /-- A turn of the loop or of the workers. -/
  | turn (now : Nat) (w : World) (server : Remote)
  /-- A report outside the loop, as at the startup, with its answer; the workers go
  on in between. An agent that waits for another answer does not send it. -/
  | report (now : Nat) (w : World) (server : Remote) (crew : Crew Duty Duty.Param Duty.Act)
      (later : World)

def sent? (s : Watched) (now : Nat) (w : World) (server : Remote) :
    Option (Agent.Sent × Agent × World) :=
  match s.agent.loop with
  | .waiting _ => none
  | _ => s.agent.sendReport now { w with server := .remote server }

/-- What the server makes of a request that it accepts: the listed attributes are
removed, then the data is set. -/
def update (d : Document) : Option (Document × List String) → Document
  | none => d
  | some (data, delete) => d.apply data delete

/-- The payload whose report an event brings to an end with the server's consent. -/
def confirmed? (s : Watched) : Event → Option Payload
  | .work _ | .start .. | .stop => none
  | .turn now _ _ => s.agent.confirmed? now
  | .report now w server _ _ => (s.sent? now w server).bind fun (sent, _, _) =>
    match sent.exchange.outcome with
    | .ok _ => some sent.payload
    | .error _ => none

/-- The agent has the answer to a report that it sent outside the loop. -/
def answer (s : Watched) (sent : Agent.Sent) (agent : Agent) (w later : World) : Watched :=
  match sent.exchange.outcome with
  | .ok r =>
    { s with
      agent := (agent.accept (some sent.payload) r later).1
      document := update s.document (Agent.lastReport? w.server) }
  | .error _ => { s with agent }

def step (s : Watched) : Event → Watched
  | .work crew => { s with agent := { s.agent with crew } }
  | .start now w => { s with agent := s.agent.start now w, request := none }
  | .stop => { s with agent := s.agent.stop }
  | .turn now w server =>
    let (agent, w) := s.agent.turn now { w with server := .remote server }
    { agent
      request := if agent.reported?.isSome then s.request.or (Agent.lastReport? w.server) else none
      document :=
        if (s.agent.confirmed? now).isSome then update s.document s.request else s.document }
  | .report now w server crew later =>
    match s.sent? now w server with
    | none => s
    | some (sent, agent, w) => s.answer sent { agent with crew } w later

/-- The states of a new agent and its server, whatever happens. The payloads that
are accepted are made of JSON values. -/
inductive Reachable : Watched → Prop
  | fresh (a : Agent) : a.accepted = {} → a.loop = .absent → Reachable { agent := a }
  | step {s : Watched} (e : Event) :
      Reachable s → (s.step e).agent.accepted.IsFinite → Reachable (s.step e)

/-- The report under way leads from the accepted payload to the reported one, and
what is held by the server agrees with the accepted one. -/
structure InStep (s : Watched) : Prop where
  agrees : Document.Agree s.document s.agent.accepted.toDocument
  request : s.request = s.agent.reported?.map (Agent.changesTo s.agent.accepted)

/-! ## Steps -/

theorem sent?_spec {s : Watched} {now : Nat} {w v : World} {server : Remote} {sent : Agent.Sent}
    {a : Agent} (h : s.sent? now w server = some (sent, a, v)) :
    s.agent.reported? = none ∧ a.accepted = s.agent.accepted ∧ a.loop = s.agent.loop ∧
      Agent.lastReport? v.server = some (Agent.changesTo s.agent.accepted sent.payload) := by
  unfold sent? at h
  unfold Agent.reported?
  split at h
  · simp at h
  · rename_i hloop
    refine ⟨?_, Agent.sendReport_spec rfl h⟩
    cases hl : s.agent.loop with
    | waiting e => exact (hloop e hl).elim
    | absent => rfl
    | asleep wake => rfl
    | left fault => rfl

theorem accepted_step (s : Watched) (e : Event) :
    (s.step e).agent.accepted = (s.confirmed? e).getD s.agent.accepted := by
  cases e with
  | work crew => rfl
  | start now w => exact Agent.rest_accepted _ now w
  | stop => rfl
  | turn now w server =>
      exact (Agent.turn_spec s.agent now (w := { w with server := .remote server }) rfl).1
  | report now w server crew later =>
      cases hs : s.sent? now w server with
      | none => simp [step, confirmed?, hs]
      | some out =>
          obtain ⟨sent, a, v⟩ := out
          obtain ⟨_, haccepted, _, _⟩ := sent?_spec hs
          simp only [step, confirmed?, hs, answer, Option.bind_some]
          cases sent.exchange.outcome with
          | ok r =>
              simp only
              exact (Agent.accept_spec _ _ _ _).1
          | error x =>
              simp only
              exact haccepted

theorem agree_update {s : Watched} {p : Payload} (h : InStep s) (hp : p.IsFinite) :
    Document.Agree (update s.document (some (Agent.changesTo s.agent.accepted p))) p.toDocument :=
  Document.agree_follow h.agrees fun _ _ => Json.isFinite_of_find? hp

theorem inStep_turn {s : Watched} (h : InStep s) (now : Nat) (w : World) (server : Remote)
    (hfinite : (s.step (.turn now w server)).agent.accepted.IsFinite) :
    InStep (s.step (.turn now w server)) := by
  obtain ⟨haccepted, hreports⟩ :=
    Agent.turn_spec s.agent now (w := { w with server := .remote server }) rfl
  have hnew := accepted_step s (.turn now w server)
  simp only [step, confirmed?] at hnew hfinite ⊢
  refine ⟨?_, ?_⟩
  · cases hc : s.agent.confirmed? now with
    | none =>
        rw [hc] at hnew
        simp only [Option.isSome_none, Bool.false_eq_true, if_false, hnew, Option.getD_none]
        exact h.agrees
    | some p =>
        have hrequest : s.request = some (Agent.changesTo s.agent.accepted p) := by
          rw [h.request, Agent.reported?_of_confirmed? hc]
          rfl
        rw [hc] at hnew
        simp only [Option.isSome_some, if_true, hnew, Option.getD_some, hrequest] at hfinite ⊢
        exact agree_update h hfinite
  · rcases hreports with ⟨hsame, hnone⟩ | hended | ⟨hidle, hwire⟩
    · rw [hnone] at hnew
      rw [hsame, hnew, h.request]
      cases s.agent.reported? <;> rfl
    · rw [hended]
      rfl
    · -- Where no report was waited for, none can have been confirmed.
      have hkept : s.agent.confirmed? now = none := by
        cases hc : s.agent.confirmed? now with
        | none => rfl
        | some p => simp [Agent.reported?_of_confirmed? hc] at hidle
      have hrequest : s.request = none := by rw [h.request, hidle]; rfl
      rw [hkept] at hnew
      rw [hrequest, hnew]
      split
      · rename_i hsome
        obtain ⟨p, hp⟩ := Option.isSome_iff_exists.1 hsome
        rw [hp]
        exact hwire p hp
      · rename_i hsome
        rw [Option.not_isSome_iff_eq_none.1 hsome]
        rfl

theorem inStep_report {s : Watched} (h : InStep s) (now : Nat) (w : World) (server : Remote)
    (crew : Crew Duty Duty.Param Duty.Act) (later : World)
    (hfinite : (s.step (.report now w server crew later)).agent.accepted.IsFinite) :
    InStep (s.step (.report now w server crew later)) := by
  cases hs : s.sent? now w server with
  | none => simpa [step, hs] using h
  | some out =>
      obtain ⟨sent, a, v⟩ := out
      obtain ⟨hidle, haccepted, hloop, hwire⟩ := sent?_spec hs
      have hrequest : s.request = none := by rw [h.request, hidle]; rfl
      have hreported {b : Agent} (hb : b.loop = s.agent.loop) : b.reported? = none := by
        unfold Agent.reported?
        rw [hb]
        exact hidle
      simp only [step, hs, answer] at hfinite ⊢
      cases ho : sent.exchange.outcome with
      | error x =>
          refine ⟨?_, ?_⟩
          · simpa only [haccepted] using h.agrees
          · simp only [hrequest]
            rw [hreported (b := { a with crew }) hloop]
            rfl
      | ok r =>
          simp only [ho] at hfinite ⊢
          obtain ⟨hnew, hkeeps⟩ := Agent.accept_spec { a with crew } (some sent.payload) r later
          rw [hnew] at hfinite
          refine ⟨?_, ?_⟩
          · simp only [hnew, hwire]
            exact agree_update h hfinite
          · simp only [hrequest]
            rw [hreported (hkeeps.trans hloop)]
            rfl

theorem inStep_step {s : Watched} (h : InStep s) (e : Event)
    (hfinite : (s.step e).agent.accepted.IsFinite) : InStep (s.step e) := by
  cases e with
  | work crew => exact ⟨h.agrees, h.request⟩
  | start now w =>
      refine ⟨?_, ?_⟩
      · rw [accepted_step s (.start now w)]
        exact h.agrees
      · simp only [step, Agent.start]
        rw [Agent.rest_reported?]
        rfl
  | stop => exact ⟨h.agrees, h.request⟩
  | turn now w server => exact inStep_turn h now w server hfinite
  | report now w server crew later => exact inStep_report h now w server crew later hfinite

theorem Reachable.inStep {s : Watched} (h : Reachable s) : InStep s := by
  induction h with
  | fresh a haccepted hloop =>
      refine ⟨?_, ?_⟩
      · simp only [haccepted]
        intro name
        rfl
      · simp [Agent.reported?, hloop]
  | step e _ hfinite ih => exact inStep_step ih e hfinite

/-- Whatever happens, the server's document is the one of the payload that the agent
remembers, and this changes only to a payload whose report is accepted then. -/
theorem document_mirrors_accepted {s : Watched} (h : Reachable s) :
    (Json.ofDocument s.document == s.agent.accepted.toJson) = true ∧
      ∀ e, (s.step e).agent.accepted = (s.confirmed? e).getD s.agent.accepted :=
  ⟨Document.agree_iff.1 h.inStep.agrees, s.accepted_step⟩

/-! ## A run -/

def crewWith (fragment : Payload) : Crew Duty Duty.Param Duty.Act where
  workers := Table.ofList [(Agent.telemetryWorker, {
    name := Agent.telemetryWorker
    param := .telemetry none 60
    actions := [.run]
    unit := .telemetry {
      registry := []
      period := 60
      stations := Table.ofList [("resources_monitor", {
        Station.new (Builtin.load {}) 60 0 with slot := ⟨some fragment⟩ })] }
    period := 60
    initialDelay := 8
    stopTimeout := 10 })]

/-- A host gets a name and loses it again; the first report of the loss is refused. -/
def nameless : Watched :=
  let agent : Agent := {
    crew := crewWith (Payload.put {} .hostname "edge")
    agenda := Agent.agendaOf 60 20 0
    telemetryPeriod := 60
    heartbeatPeriod := 20 }
  let refusing : Remote := { telemetry := ⟨[{ verdict := .refuse "busy" }]⟩ }
  let named := step { agent } (.report 0 {} {} (crewWith {}) {})
  let refused := named.step (.report 60 {} refusing (crewWith {}) {})
  refused.step (.report 120 {} {} (crewWith {}) {})

theorem reachable_nameless : Reachable nameless := by
  unfold nameless
  refine .step _ (.step _ (.step _ (.fresh _ rfl rfl) ?_) ?_) ?_
  · rfl
  · rfl
  · rfl

theorem document_mirrors_accepted_nameless :
    Reachable nameless ∧ nameless.document.keys = ["current-time", "status", "status-notes"] ∧
      (Json.ofDocument nameless.document == nameless.agent.accepted.toJson) = true ∧
      ∀ e, (nameless.step e).agent.accepted =
        (nameless.confirmed? e).getD nameless.agent.accepted :=
  ⟨reachable_nameless, by decide, document_mirrors_accepted reachable_nameless⟩

end Watched
end EdgeAgent
