import EdgeAgent.Proofs.Agent.Mirror

/-! # Reports whose answers are lost

A server may carry out a report although the agent never hears of it: the answer is
an error, or comes after the loop has dropped the report. The agent goes on from the
payload that was accepted last, so a field that a lost report has changed is sent
again only if the next payload differs in it from that one. The server's document
and the accepted payload differ exactly in the fields that a lost report has changed
and no accepted one since. The next accepted report brings the two together if and
only if it changes every one of these.
-/

namespace EdgeAgent

open Payload

/-! ## Requests that reach the server -/

namespace Watched

/-- The names that a request sets or deletes. -/
def touched : Document × List String → List String
  | (data, delete) => data.keys ++ delete

/-- The request that an event puts on the wire. It reaches the server, whatever
becomes of its answer. -/
def arrival? (s : Watched) : Event → Option (Document × List String)
  | .work _ | .start .. | .stop => none
  | .turn now w server =>
    if s.request.isNone then (s.step (.turn now w server)).request else none
  | .report now w server _ _ =>
    (s.sent? now w server).bind fun (_, _, w) => Agent.lastReport? w.server

/-- The request whose accepted answer an event brings. -/
def settled? (s : Watched) (e : Event) : Option (Document × List String) :=
  if (s.confirmed? e).isSome then s.request.or (s.arrival? e) else none

theorem mem_touched_iff {accepted p : Payload} {name : String} :
    name ∈ touched (Agent.changesTo accepted p) ↔
      sameValue (accepted.toDocument.find? name) (p.toDocument.find? name) = false := by
  rw [← Document.mem_changes_iff, touched, Agent.changesTo, List.mem_append, Table.mem_keys_iff,
    Document.find?_only, Payload.changes]
  apply or_congr_left
  by_cases hsend : name ∈ (Document.changes accepted.toDocument p.toDocument).send
  · obtain ⟨v, hv, _⟩ := Document.mem_send_iff.mp hsend
    simp [hsend, hv]
  · simp [hsend]

/-- What an event does to the reports: no request goes out and no answer counts, or a
request goes out, or one goes out and is accepted at once, or the one that is waited
for is accepted. -/
inductive Delivery (s : Watched) (e : Event) : Prop
  | none : s.arrival? e = .none → s.confirmed? e = .none →
      (s.step e).agent.reported? = s.agent.reported? ∨ (s.step e).agent.reported? = .none →
      Delivery s e
  | sent (p : Payload) : s.arrival? e = some (Agent.changesTo s.agent.accepted p) →
      s.confirmed? e = .none → s.agent.reported? = .none →
      (s.step e).agent.reported? = some p ∨ (s.step e).agent.reported? = .none → Delivery s e
  | answered (p : Payload) : s.arrival? e = some (Agent.changesTo s.agent.accepted p) →
      s.confirmed? e = some p → s.agent.reported? = .none →
      (s.step e).agent.reported? = .none → Delivery s e
  | heard (p : Payload) : s.arrival? e = .none → s.confirmed? e = some p →
      s.agent.reported? = some p → (s.step e).agent.reported? = .none → Delivery s e

theorem delivery_turn {s : Watched} (h : InStep s) (now : Nat) (w : World) (server : Remote) :
    Delivery s (.turn now w server) := by
  obtain ⟨_, hreports⟩ := Agent.turn_spec s.agent now (w := { w with server := .remote server }) rfl
  cases hr : s.agent.reported? with
  | some p =>
      have hsent : s.arrival? (.turn now w server) = none := by
        simp [arrival?, h.request, hr]
      have hended : (s.step (.turn now w server)).agent.reported? = some p ∧
          s.confirmed? (.turn now w server) = none ∨
            (s.step (.turn now w server)).agent.reported? = none := by
        rcases hreports with ⟨hsame, hnone⟩ | hended | ⟨hidle, _⟩
        · exact .inl ⟨hsame.trans hr, hnone⟩
        · exact .inr hended
        · simp [hr] at hidle
      cases hc : s.confirmed? (.turn now w server) with
      | none => exact .none hsent hc (hr ▸ hended.imp_left And.left)
      | some q =>
          have hq : s.agent.reported? = some q := Agent.reported?_of_confirmed? hc
          rcases hended with ⟨_, hnone⟩ | hended
          · simp [hc] at hnone
          · exact .heard q hsent hc hq hended
  | none =>
      have hrequest : s.request = none := by
        rw [h.request, hr]
        rfl
      have hkept : s.confirmed? (.turn now w server) = none := by
        cases hc : s.confirmed? (.turn now w server) with
        | none => rfl
        | some p => simp [Agent.reported?_of_confirmed? hc] at hr
      have hsent : s.arrival? (.turn now w server) = (s.step (.turn now w server)).request := by
        simp [arrival?, hrequest]
      cases hafter : (s.step (.turn now w server)).agent.reported? with
      | none =>
          refine .none ?_ hkept (.inr hafter)
          rw [hsent]
          simp only [step] at hafter ⊢
          rw [hafter]
          rfl
      | some p =>
          refine .sent p ?_ hkept hr (.inl hafter)
          rw [hsent]
          simp only [step] at hafter ⊢
          rcases hreports with ⟨hsame, _⟩ | hended | ⟨_, hwire⟩
          · simp [hsame, hr] at hafter
          · simp [hended] at hafter
          · rw [hafter, hrequest]
            exact hwire p hafter

theorem delivery_report (s : Watched) (now : Nat) (w : World) (server : Remote)
    (crew : Crew Duty Duty.Param Duty.Act) (later : World) :
    Delivery s (.report now w server crew later) := by
  cases hs : s.sent? now w server with
  | none =>
      refine .none ?_ ?_ (.inl ?_)
      · simp [arrival?, hs]
      · simp [confirmed?, hs]
      · simp [step, hs]
  | some out =>
      obtain ⟨sent, a, v⟩ := out
      obtain ⟨hidle, _, hloop, hwire⟩ := sent?_spec hs
      have hreported {b : Agent} (hb : b.loop = s.agent.loop) : b.reported? = none := by
        unfold Agent.reported?
        rw [hb]
        exact hidle
      have hsent : s.arrival? (.report now w server crew later) =
          some (Agent.changesTo s.agent.accepted sent.payload) := by
        simp [arrival?, hs, hwire]
      cases ho : sent.exchange.outcome with
      | error x =>
          refine .sent sent.payload hsent ?_ hidle (.inr ?_)
          · simp [confirmed?, hs, ho]
          · simp only [step, hs, answer, ho]
            exact hreported (b := { a with crew }) hloop
      | ok r =>
          refine .answered sent.payload hsent ?_ hidle ?_
          · simp [confirmed?, hs, ho]
          · simp only [step, hs, answer, ho]
            exact hreported
              ((Agent.accept_spec { a with crew } (some sent.payload) r later).2.trans hloop)

theorem delivery {s : Watched} (h : InStep s) (e : Event) : Delivery s e := by
  cases e with
  | work crew => exact .none rfl rfl (.inl rfl)
  | start now w => exact .none rfl rfl (.inr (Agent.rest_reported? _ _ _))
  | stop => exact .none rfl rfl (.inl rfl)
  | turn now w server => exact delivery_turn h now w server
  | report now w server crew later => exact delivery_report s now w server crew later

end Watched

/-! ## A server that carries out every report -/

/-- An agent, the document of a server that carries out every report it receives, and
the names that lost reports have touched and no accepted one since. -/
structure Lossy where
  watched : Watched
  held : Document := Table.empty
  unsure : List String := []

namespace Lossy

open Watched (Event touched)

/-- The names in doubt after the answer to a request has been accepted, if one has. -/
def settle (unsure : List String) : Option (Document × List String) → List String
  | none => unsure
  | some request => unsure.filter (· ∉ touched request)

def step (s : Lossy) (e : Event) : Lossy :=
  let sent := s.watched.arrival? e
  { watched := s.watched.step e
    held := Watched.update s.held sent
    unsure := settle (s.unsure ++ (sent.map touched).getD []) (s.watched.settled? e) }

/-- The states of a new agent and its server, whatever happens and whichever answers
are lost. The payloads that are accepted are made of JSON values. -/
inductive Reachable : Lossy → Prop
  | fresh (a : Agent) : a.accepted = {} → a.loop = .absent → Reachable { watched := { agent := a } }
  | step {s : Lossy} (e : Event) :
      Reachable s → (s.step e).watched.agent.accepted.IsFinite → Reachable (s.step e)

theorem Reachable.watched {s : Lossy} (h : Reachable s) : s.watched.Reachable := by
  induction h with
  | fresh a haccepted hloop => exact .fresh a haccepted hloop
  | step e _ hfinite ih => exact .step e ih hfinite

/-! ## What the server holds -/

/-- The server's document and the accepted payload differ in the names that are in
doubt, and what the report under way has changed is held by the server. -/
structure Tracks (held : Document) (unsure : List String) (accepted : Payload)
    (reported : Option Payload) : Prop where
  unsure : ∀ name, name ∈ unsure ↔
    sameValue (held.find? name) (accepted.toDocument.find? name) = false
  underWay : ∀ p, reported = some p → ∀ name,
    sameValue (accepted.toDocument.find? name) (p.toDocument.find? name) = false →
      held.find? name = p.toDocument.find? name

variable {held : Document} {unsure : List String} {accepted p : Payload}
  {reported : Option Payload}

theorem Tracks.giveUp (h : Tracks held unsure accepted reported) :
    Tracks held unsure accepted none :=
  ⟨h.unsure, by simp⟩

theorem Tracks.arrive (h : Tracks held unsure accepted none) (p : Payload) :
    Tracks (Watched.update held (some (Agent.changesTo accepted p)))
      (unsure ++ touched (Agent.changesTo accepted p)) accepted (some p) := by
  have hheld : Watched.update held (some (Agent.changesTo accepted p)) =
      Document.follow held accepted.toDocument p.toDocument := rfl
  rw [hheld]
  refine ⟨fun name => ?_, ?_⟩
  · rw [List.mem_append, Watched.mem_touched_iff, h.unsure, Document.find?_follow]
    cases hsame : sameValue (accepted.toDocument.find? name) (p.toDocument.find? name) with
    | true => simp
    | false => simp [sameValue_comm (p.toDocument.find? name), hsame]
  · intro q hq name hchanged
    obtain rfl := Option.some.inj hq
    rw [Document.find?_follow, hchanged]
    rfl

theorem Tracks.accept (h : Tracks held unsure accepted (some p)) (hp : p.IsFinite) :
    Tracks held (settle unsure (some (Agent.changesTo accepted p))) p none := by
  refine ⟨fun name => ?_, by simp⟩
  simp only [settle, List.mem_filter, decide_eq_true_eq, Watched.mem_touched_iff, h.unsure,
    Bool.not_eq_false]
  cases hsame : sameValue (accepted.toDocument.find? name) (p.toDocument.find? name) with
  | true => simp [sameValue_congr hsame]
  | false =>
      rw [h.underWay p rfl name hsame]
      have hself : sameValue (p.toDocument.find? name) (p.toDocument.find? name) :=
        Document.agree_self (fun _ _ => Json.isFinite_of_find? hp) name
      simp [hself]

theorem tracks_step {s : Lossy} (hwatched : s.watched.InStep)
    (h : Tracks s.held s.unsure s.watched.agent.accepted s.watched.agent.reported?) (e : Event)
    (hfinite : (s.step e).watched.agent.accepted.IsFinite) :
    Tracks (s.step e).held (s.step e).unsure (s.step e).watched.agent.accepted
      (s.step e).watched.agent.reported? := by
  have hnew := s.watched.accepted_step e
  simp only [step] at hfinite ⊢
  rw [hnew] at hfinite ⊢
  cases Watched.delivery hwatched e with
  | none hsent hkept hreported =>
      simp only [hsent, hkept, Watched.settled?, settle, Option.map_none, Option.getD_none,
        List.append_nil, Option.isSome_none, Bool.false_eq_true, if_false]
      rcases hreported with hsame | hended
      · rw [hsame]
        exact h
      · rw [hended]
        exact h.giveUp
  | sent p hsent hkept hidle hreported =>
      simp only [hsent, hkept, Watched.settled?, settle, Option.map_some, Option.getD_some,
        Option.getD_none, Option.isSome_none, Bool.false_eq_true, if_false]
      rw [hidle] at h
      rcases hreported with hsame | hended
      · rw [hsame]
        exact h.arrive p
      · rw [hended]
        exact (h.arrive p).giveUp
  | answered p hsent hc hidle hended =>
      have hrequest : s.watched.request = none := by
        rw [hwatched.request, hidle]
        rfl
      rw [hc] at hfinite
      simp only [hsent, hc, hrequest, Watched.settled?, Option.map_some, Option.getD_some,
        Option.isSome_some, if_true, Option.none_or, hended]
      rw [hidle] at h
      exact (h.arrive p).accept hfinite
  | heard p hsent hc hreported hended =>
      have hrequest : s.watched.request = some (Agent.changesTo s.watched.agent.accepted p) := by
        rw [hwatched.request, hreported]
        rfl
      rw [hc] at hfinite
      simp only [hsent, hc, hrequest, Watched.settled?, Option.map_none, Option.getD_none,
        List.append_nil, Option.getD_some, Option.isSome_some, if_true, Option.some_or, hended]
      rw [hreported] at h
      exact h.accept hfinite

theorem Reachable.tracks {s : Lossy} (h : Reachable s) :
    Tracks s.held s.unsure s.watched.agent.accepted s.watched.agent.reported? := by
  induction h with
  | fresh a haccepted hloop =>
      have hidle : a.reported? = none := by simp [Agent.reported?, hloop]
      rw [haccepted, hidle]
      refine ⟨fun name => ?_, by simp⟩
      -- Neither document has any name.
      exact iff_of_false List.not_mem_nil Bool.noConfusion
  | step e hbefore hfinite ih => exact tracks_step hbefore.watched.inStep ih e hfinite

/-- After an accepted report only those names are in doubt which were before, and
which the report leaves as they were accepted. -/
theorem mem_unsure_step {s : Lossy} (h : s.watched.InStep) {e : Event} {p : Payload}
    (hc : s.watched.confirmed? e = some p) (name : String) :
    name ∈ (s.step e).unsure ↔ name ∈ s.unsure ∧
      sameValue (s.watched.agent.accepted.toDocument.find? name) (p.toDocument.find? name) := by
  cases Watched.delivery h e with
  | none _ hkept _ => simp [hc] at hkept
  | sent _ _ hkept _ _ => simp [hc] at hkept
  | answered q hsent hq hidle _ =>
      obtain rfl : p = q := Option.some.inj (hc.symm.trans hq)
      have hrequest : s.watched.request = none := by
        rw [h.request, hidle]
        rfl
      simp [step, settle, Watched.settled?, hc, hsent, hrequest, Watched.mem_touched_iff]
  | heard q hsent hq hreported _ =>
      obtain rfl : p = q := Option.some.inj (hc.symm.trans hq)
      have hrequest : s.watched.request = some (Agent.changesTo s.watched.agent.accepted p) := by
        rw [h.request, hreported]
        rfl
      simp [step, settle, Watched.settled?, hc, hsent, hrequest, Watched.mem_touched_iff]

/-- The server's document differs from the accepted payload in the names in doubt, and
in no others. An accepted report brings the document to the new payload exactly if it
changes each of them; any other stays as the lost report has left it. -/
theorem Reachable.recovers_iff {s : Lossy} (h : Reachable s) :
    (∀ name, name ∈ s.unsure ↔
      sameValue (s.held.find? name) (s.watched.agent.accepted.toDocument.find? name) = false) ∧
    ∀ e p, s.watched.confirmed? e = some p → p.IsFinite →
      (s.step e).watched.agent.accepted = p ∧
      (∀ name, sameValue ((s.step e).held.find? name) (p.toDocument.find? name) = false ↔
        name ∈ s.unsure ∧ sameValue (s.watched.agent.accepted.toDocument.find? name)
          (p.toDocument.find? name)) ∧
      ((Json.ofDocument (s.step e).held == p.toJson) = true ↔
        ∀ name ∈ s.unsure, sameValue (s.watched.agent.accepted.toDocument.find? name)
          (p.toDocument.find? name) = false) := by
  refine ⟨h.tracks.unsure, fun e p hc hp => ?_⟩
  have hnew : (s.step e).watched.agent.accepted = p := by
    have hstep := s.watched.accepted_step e
    rw [hc] at hstep
    exact hstep
  have hdiffers : ∀ name, sameValue ((s.step e).held.find? name) (p.toDocument.find? name) = false ↔
      name ∈ s.unsure ∧ sameValue (s.watched.agent.accepted.toDocument.find? name)
        (p.toDocument.find? name) := by
    intro name
    have hafter := (Reachable.step e h (hnew ▸ hp)).tracks.unsure name
    rw [hnew] at hafter
    rw [← hafter]
    exact mem_unsure_step h.watched.inStep hc name
  refine ⟨hnew, hdiffers, Document.agree_iff.symm.trans ?_⟩
  constructor
  · intro hagree name hunsure
    apply eq_false_of_ne_true
    intro hsame
    have hdiffer := (hdiffers name).mpr ⟨hunsure, hsame⟩
    exact Bool.false_ne_true (hdiffer.symm.trans (hagree name))
  · intro hchanged name
    apply eq_true_of_ne_false
    intro hdiffer
    obtain ⟨hunsure, hsame⟩ := (hdiffers name).mp hdiffer
    exact Bool.false_ne_true ((hchanged name hunsure).symm.trans hsame)

/-! ## A run -/

/-- The answer to the first report, which names the host, is an error. -/
def misheard : Lossy :=
  let agent : Agent := {
    crew := Watched.crewWith (Payload.put {} .hostname "edge")
    agenda := Agent.agendaOf 60 20 0
    telemetryPeriod := 60
    heartbeatPeriod := 20 }
  let refusing : Remote := { telemetry := ⟨[{ verdict := .refuse "lost" }]⟩ }
  step { watched := { agent } } (.report 0 {} refusing (Watched.crewWith {}) {})

theorem reachable_misheard : Reachable misheard :=
  .step _ (.fresh _ rfl rfl) rfl

def nextReport : Event := .report 60 {} {} (Watched.crewWith {}) {}

/-- The name of the host stays with the server although the next report is accepted. -/
theorem not_recovers_misheard :
    Reachable misheard ∧ (misheard.watched.confirmed? nextReport).isSome ∧
      (Json.ofDocument (misheard.step nextReport).held ==
        (misheard.step nextReport).watched.agent.accepted.toJson) = false :=
  ⟨reachable_misheard, by decide, by decide⟩

theorem recovers_iff_misheard :
    Reachable misheard ∧ misheard.unsure = ["current-time", "hostname", "status", "status-notes"] ∧
      ∃ p, misheard.watched.confirmed? nextReport = some p ∧ p.IsFinite ∧
        ∀ name, sameValue ((misheard.step nextReport).held.find? name)
            (p.toDocument.find? name) = false ↔
          name ∈ misheard.unsure ∧ sameValue
            (misheard.watched.agent.accepted.toDocument.find? name) (p.toDocument.find? name) := by
  have hconfirmed : (misheard.watched.confirmed? nextReport).isSome := by decide
  obtain ⟨p, hp⟩ := Option.isSome_iff_exists.mp hconfirmed
  have hfinite : ∀ p ∈ misheard.watched.confirmed? nextReport, p.toJson.isFinite := by decide
  have hdiffers := ((Reachable.recovers_iff reachable_misheard).2 nextReport p hp
    (hfinite p hp)).2.1
  exact ⟨reachable_misheard, by decide, p, hp, hfinite p hp, hdiffers⟩

end Lossy
end EdgeAgent
