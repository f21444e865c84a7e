import EdgeAgent.Proofs.Agent.Report
import EdgeAgent.Proofs.Agent.Standing
import EdgeAgent.Proofs.Payload.Changes
import EdgeAgent.Proofs.Server.StatusFile

/-! # Taking over a status file

Only changes are reported, and a new agent takes an empty payload for accepted. What an
earlier agent has left in the status file is no change to it, so its first report deletes
nothing. A name of the earlier document stays until the agent has given it a value; after
that the file follows.
-/

namespace EdgeAgent

open StatusFile (Holds)

/-- A report of the payload is neither out of the reader's range nor nested too deep. -/
structure Payload.IsStorable (p : Payload) : Prop where
  ranged : (Json.ofDocument p.toDocument).Ranged
  depth : (Json.ofDocument p.toDocument).depth ≤ Json.depthLimit

theorem Payload.IsStorable.only {p : Payload} (h : p.IsStorable) (names : List String) :
    (Json.ofDocument (p.toDocument.only names)).Ranged ∧
      (Json.ofDocument (p.toDocument.only names)).depth ≤ Json.depthLimit := by
  have hrows : ∀ m ∈ (p.toDocument.only names).rows, m ∈ p.toDocument.rows :=
    fun m hm => (List.mem_filter.mp hm).1
  refine ⟨Json.rangedMembers_iff.mpr fun m hm => ?_,
    StatusFile.depth_ofDocument_le_iff.mpr fun m hm => ?_⟩
  · exact Json.rangedMembers_iff.mp h.ranged m (hrows m hm)
  · exact StatusFile.depth_ofDocument_le_iff.mp h.depth m (hrows m hm)

instance (p : Payload) : Decidable p.IsStorable :=
  decidable_of_iff (_ ∧ _) ⟨fun h => ⟨h.1, h.2⟩, fun h => ⟨h.ranged, h.depth⟩⟩

/-! ## The names in the file -/

namespace Successor

/-- The payload told last, of those that the file took, the last one first. -/
def last (told : List Payload) : Payload := told.head?.getD {}

/-- The file holds a document with the names of the last payload, and those of the
earlier document that no payload has had. -/
def Leaves (path : Path) (old : Document) (told : List Payload) (f : Files) : Prop :=
  ∃ d, Holds f path d ∧ ∀ name, name ∈ d.keys ↔
    name ∈ (last told).toDocument.keys ∨ name ∈ old.keys ∧ ∀ p ∈ told, name ∉ p.toDocument.keys

variable {path : Path} {old : Document} {told : List Payload} {f g : Files}

theorem Leaves.congr (h : Leaves path old told f) (hread : g.read path = f.read path) :
    Leaves path old told g := by
  obtain ⟨d, ⟨text, htext, hd⟩, hnames⟩ := h
  exact ⟨d, ⟨text, hread.trans htext, hd⟩, hnames⟩

theorem not_left_of_mem_last (told : List Payload) (name : String) :
    name ∈ (last told).toDocument.keys → ¬ ∀ p ∈ told, name ∉ p.toDocument.keys := by
  intro h hall
  cases told with
  | nil => cases h
  | cons p rest => exact hall p List.mem_cons_self h

theorem mem_keys_follow_iff {d : Document} {name : String} (p : Payload)
    (hd : name ∈ d.keys ↔ name ∈ (last told).toDocument.keys ∨
      name ∈ old.keys ∧ ∀ q ∈ told, name ∉ q.toDocument.keys) :
    name ∈ (Document.follow d (last told).toDocument p.toDocument).keys ↔
      name ∈ p.toDocument.keys ∨ name ∈ old.keys ∧ ∀ q ∈ p :: told, name ∉ q.toDocument.keys := by
  have hown := not_left_of_mem_last told name
  rw [Table.mem_keys_iff, Document.find?_follow, List.forall_mem_cons]
  split
  · rename_i hsame
    have hboth := Payload.isSome_of_sameValue hsame
    rw [← Table.mem_keys_iff, hd]
    simp only [Table.mem_keys_iff, hboth] at hown ⊢
    tauto
  · rename_i hdiffers
    rw [← Table.mem_keys_iff]
    refine ⟨.inl, fun h => h.elim id fun hleft => ?_⟩
    obtain ⟨_, hp, hothers⟩ := hleft
    have hlast : name ∉ (last told).toDocument.keys := fun h => hown h hothers
    rw [Table.mem_keys_iff, Bool.not_eq_true, Option.isSome_eq_false_iff,
      Option.isNone_iff_eq_none] at hp hlast
    rw [hp, hlast] at hdiffers
    exact (hdiffers rfl).elim

theorem Leaves.telemetry (h : Leaves path old told f) {p : Payload}
    {outcome : Except ServerError Unit}
    (hg : StatusFile.telemetry .never f path (Agent.changesTo (last told) p).1
      (Agent.changesTo (last told) p).2 = (outcome, g))
    (hp : outcome.isOk = true → p.IsStorable) :
    Leaves path old (if outcome.isOk then p :: told else told) g := by
  obtain ⟨d, hd, hnames⟩ := h
  cases outcome with
  | error e => exact ⟨d, hd.of_telemetry_error hg, hnames⟩
  | ok _ =>
      obtain ⟨hranged, hdepth⟩ := (hp rfl).only (Payload.changes (last told) p).send
      obtain ⟨e, he, hkeys⟩ := hd.of_telemetry_ok hranged hdepth hg
      refine ⟨e, he, fun name => ?_⟩
      rw [hkeys]
      exact mem_keys_follow_iff p (hnames name)

end Successor

/-! ## An agent on a status file -/

namespace Agent

/-- The payload that the loop will take for accepted once it has the answer. -/
def awaited? (a : Agent) : Option Payload :=
  match a.loop with
  | .waiting e => e.confirmed?
  | _ => none

theorem awaited?_congr {a b : Agent} (h : a.loop = b.loop) : a.awaited? = b.awaited? := by
  unfold awaited?
  rw [h]

theorem reported?_of_awaited? {a : Agent} {p : Payload} (h : a.awaited? = some p) :
    a.reported? = some p := by
  unfold awaited? at h
  unfold reported?
  cases hl : a.loop with
  | waiting e =>
      rw [hl] at h
      exact Errand.payload_of_confirmed? h
  | absent => simp [hl] at h
  | asleep wake => simp [hl] at h
  | left fault => simp [hl] at h

theorem awaited?_eq_none {a : Agent} (h : a.reported? = none) : a.awaited? = none := by
  cases ha : a.awaited? with
  | none => rfl
  | some p => simp [reported?_of_awaited? ha] at h

theorem awaited?_await (a : Agent) (x : Action Operation) {exchange : World.Exchange}
    (h : exchange.delay = 0) (p : Option Payload) (now : Nat) (w : World) :
    (a.await x exchange p now w).awaited? = if exchange.outcome.isOk then p else none := by
  have htimely : (Timer.after now 0 w.rank).rings ≤ (dropTimer now x.period w).rings := by
    have hfirst := Instant.endOfWait_zero_le now x.period
    have hsecond := Instant.le_endOfWait (Instant.endOfWait now x.period) x.period
    simp only [dropTimer, Timer.rings_after]
    omega
  unfold awaited? Errand.confirmed?
  simp only [await, h, if_pos htimely]
  cases exchange.outcome <;> rfl

theorem sendReport_statusFile {a b : Agent} {now : Nat} {w v : World} {path : Path} {sent : Sent}
    (hw : w.server = .statusFile path) (h : a.sendReport now w = some (sent, b, v)) :
    b.accepted = a.accepted ∧ b.loop = a.loop ∧
      ∃ outcome, StatusFile.telemetry .never w.files path (changesTo a.accepted sent.payload).1
          (changesTo a.accepted sent.payload).2 = (outcome, v.files) ∧
        sent.exchange = ⟨0, outcome.map fun _ => {}⟩ := by
  obtain ⟨u, hc, hsent⟩ := sendReport_eq_some h
  obtain ⟨t, _, rfl, board, rfl⟩ := collect_eq_some hc
  simp only [World.send, hw, reportRequest, Prod.mk.injEq] at hsent
  obtain ⟨hexchange, rfl⟩ := hsent
  exact ⟨rfl, rfl, _, rfl, hexchange.symm⟩

theorem sendReport_of_ready {a b : Agent} {now : Nat} {w v : World} {path : Path} {sent : Sent}
    (hw : w.server = .statusFile path) (hready : StatusFile.Ready path w.files)
    (h : a.sendReport now w = some (sent, b, v)) : ∃ r, sent.exchange.outcome = .ok r := by
  obtain ⟨_, _, outcome, htelemetry, hexchange⟩ := sendReport_statusFile hw h
  obtain ⟨g, hg⟩ := hready.telemetry (changesTo a.accepted sent.payload).1
    (changesTo a.accepted sent.payload).2
  obtain rfl : .ok () = outcome := congrArg Prod.fst (hg.symm.trans htelemetry)
  exact ⟨{}, by rw [hexchange]; rfl⟩

end Agent

/-! ## Its life -/

/-- An agent on a status file, and the payloads of the reports that the file took, the
last one first. -/
structure Successor where
  agent : Agent
  files : Files
  told : List Payload := []

namespace Successor

/-- The surroundings have the status file as it was left. -/
structure Shows (s : Successor) (path : Path) (w : World) : Prop where
  server : w.server = .statusFile path
  file : w.files.read path = s.files.read path

/-- After a turn. A report that it has sent, and that is waited for to be accepted, is one
that the file took. -/
def after (told : List Payload) (out : Agent × World) : Successor :=
  ⟨out.1, out.2.files, out.1.awaited?.toList ++ told⟩

def answered (told : List Payload) (sent : Agent.Sent) (a : Agent) (v later : World) : Successor :=
  match sent.exchange.outcome with
  | .ok r => ⟨(a.accept (some sent.payload) r later).1, v.files, sent.payload :: told⟩
  | .error _ => ⟨a, v.files, told⟩

/-- What may befall the agent. Whatever else is in its surroundings may have become
anything from one step to the next. -/
inductive Step (path : Path) (s : Successor) : Successor → Prop
  /-- The workers have become others, whatever they did. -/
  | work (crew : Crew Duty Duty.Param Duty.Act) :
      Step path s { s with agent := { s.agent with crew } }
  /-- The loop is started where no answer is on its way. -/
  | start (now : Nat) (w : World) :
      s.agent.awaited? = none → Step path s { s with agent := s.agent.start now w }
  | stop : Step path s { s with agent := s.agent.stop }
  | turn (now : Nat) (w : World) :
      s.Shows path w → Step path s (after s.told (s.agent.loopTurn now w))
  /-- A report outside the loop, as at the startup; the workers go on in between. -/
  | report {now : Nat} {w v : World} {sent : Agent.Sent} {a : Agent}
      (crew : Crew Duty Duty.Param Duty.Act) (later : World) :
      s.agent.awaited? = none → s.Shows path w → s.agent.sendReport now w = some (sent, a, v) →
        Step path s (answered s.told sent { a with crew } v later)

/-- The states of a new agent that has been given the status file of an earlier one. -/
inductive Reachable (path : Path) (old : Document) : Successor → Prop
  | fresh {agent : Agent} {settings : Settings} {now : Nat} {w : World} :
      w.server = .statusFile path → Holds w.files path old →
        (Agent.new settings now w).1 = .ok agent → Reachable path old { agent, files := w.files }
  | step {s s' : Successor} : Reachable path old s → Step path s s' →
      (∀ p ∈ s'.told, p.IsStorable) → Reachable path old s'

/-! ## What the file holds -/

/-- The file has followed the agent, which knows the last payload or will know it. -/
structure InStep (path : Path) (old : Document) (s : Successor) : Prop where
  leaves : Leaves path old s.told s.files
  last : last s.told = s.agent.awaited?.getD s.agent.accepted

variable {path : Path} {old : Document} {told : List Payload} {f : Files} {s s' : Successor}

theorem InStep.of_idle {agent : Agent} (hleaves : Leaves path old told f)
    (hidle : agent.awaited? = none) (haccepted : agent.accepted = Successor.last told) :
    InStep path old ⟨agent, f, told⟩ := by
  refine ⟨hleaves, ?_⟩
  rw [hidle]
  exact haccepted.symm

theorem InStep.accepted (h : InStep path old s) (hidle : s.agent.awaited? = none) :
    s.agent.accepted = Successor.last s.told := by
  have hlast := h.last
  rw [hidle] at hlast
  exact hlast.symm

theorem Leaves.sendReport {a b : Agent} {now : Nat} {w v : World} {sent : Agent.Sent}
    (h : Leaves path old told w.files) (hw : w.server = .statusFile path)
    (ha : a.accepted = last told) (hsend : a.sendReport now w = some (sent, b, v))
    (hp : sent.exchange.outcome.isOk = true → sent.payload.IsStorable) :
    Leaves path old (if sent.exchange.outcome.isOk then sent.payload :: told else told)
      v.files := by
  obtain ⟨_, _, outcome, htelemetry, hexchange⟩ := Agent.sendReport_statusFile hw hsend
  have hsame : sent.exchange.outcome.isOk = outcome.isOk := by
    rw [hexchange]
    cases outcome <;> rfl
  rw [ha] at htelemetry
  rw [hsame] at hp ⊢
  exact h.telemetry htelemetry hp

theorem InStep.after_idle {a : Agent} {v : World} (h : Leaves path old told v.files)
    (hidle : a.awaited? = none) (ha : a.accepted = Successor.last told) :
    InStep path old (after told (a, v)) := by
  unfold after
  rw [hidle]
  exact .of_idle h hidle ha

theorem InStep.rest {v : World} (h : Leaves path old told v.files) {a : Agent}
    (ha : a.accepted = Successor.last told) (now : Nat) (w : World) :
    InStep path old (after told (a.rest now w, v)) :=
  .after_idle h (Agent.awaited?_eq_none (a.rest_reported? now w)) ((a.rest_accepted now w).trans ha)

theorem InStep.await {a b : Agent} {now : Nat} {w v : World} {sent : Agent.Sent}
    (h : Leaves path old told w.files) (hw : w.server = .statusFile path)
    (ha : a.accepted = Successor.last told) (hsend : a.sendReport now w = some (sent, b, v))
    {x : Action Operation}
    (hp : ∀ p ∈ (after told (b.await x sent.exchange (some sent.payload) now v, v)).told,
      p.IsStorable) :
    InStep path old (after told (b.await x sent.exchange (some sent.payload) now v, v)) := by
  obtain ⟨hb, _, outcome, _, hexchange⟩ := Agent.sendReport_statusFile hw hsend
  have hdelay : sent.exchange.delay = 0 := by rw [hexchange]
  have hawaited := b.awaited?_await x hdelay (some sent.payload) now v
  unfold after at hp ⊢
  rw [hawaited] at hp ⊢
  have hleaves := h.sendReport hw ha hsend
  cases houtcome : sent.exchange.outcome with
  | ok r =>
      rw [houtcome] at hp hleaves hawaited
      refine ⟨hleaves fun _ => hp _ List.mem_cons_self, ?_⟩
      rw [hawaited]
      rfl
  | error e =>
      rw [houtcome] at hleaves hawaited
      exact .of_idle (hleaves Bool.noConfusion) hawaited (hb.trans ha)

theorem InStep.dispatch {a : Agent} {w : World} (h : Leaves path old told w.files)
    (hw : w.server = .statusFile path) (ha : a.accepted = Successor.last told)
    {x : Action Operation} {now : Nat}
    (hp : ∀ p ∈ (after told (a.dispatch x now w)).told, p.IsStorable) :
    InStep path old (after told (a.dispatch x now w)) := by
  revert hp
  unfold Agent.dispatch
  cases x.task with
  | heartbeat =>
      intro _
      have hsend : w.send now .heartbeat = (⟨0, .ok {}⟩, w) := by
        unfold World.send
        rw [hw]
      rw [hsend]
      exact .after_idle h (a.awaited?_await x rfl none now w) ha
  | watch =>
      intro _
      have hfiles := Agent.watch_world (f := World.files) (fun _ _ _ _ => rfl) a now w
      exact .rest (hfiles ▸ h) ((a.watch_accepted now w).trans ha) now _
  | report =>
      cases hs : a.sendReport now w with
      | none =>
          intro _
          exact .rest h ha now w
      | some out =>
          obtain ⟨sent, b, v⟩ := out
          exact fun hp => .await h hw ha hs hp

theorem InStep.beginCycle {a : Agent} {w : World} (h : Leaves path old told w.files)
    (hw : w.server = .statusFile path) (ha : a.accepted = Successor.last told) {now : Nat}
    (hp : ∀ p ∈ (after told (a.beginCycle now w)).told, p.IsStorable) :
    InStep path old (after told (a.beginCycle now w)) := by
  revert hp
  unfold Agent.beginCycle
  extract_lets v
  have hv : Leaves path old told v.files := h
  cases a.agenda.callNext now with
  | error fault =>
      intro _
      exact .after_idle hv rfl ha
  | ok found =>
      obtain ⟨fired, agenda⟩ := found
      cases fired with
      | none =>
          intro _
          exact .rest (a := { a with agenda }) hv ha now v
      | some x => exact fun hp => .dispatch (a := { a with agenda }) hv hw ha hp

theorem InStep.endCycle {w : World} (h : Leaves path old told w.files) {a : Agent} {e : Errand}
    (ha : e.confirmed?.getD a.accepted = Successor.last told) (now : Nat) :
    InStep path old (after told (a.endCycle e now w)) := by
  obtain ⟨haccepted, hended⟩ := a.endCycle_spec e now w
  have hfiles : (a.endCycle e now w).2.files = w.files := by
    unfold Agent.endCycle
    split
    · cases e.outcome <;> rfl
    · rfl
  exact .after_idle (hfiles ▸ h) (Agent.awaited?_eq_none hended) (haccepted.trans ha)

theorem InStep.turn (h : InStep path old s) {now : Nat} {w : World} (hw : s.Shows path w)
    (hp : ∀ p ∈ (after s.told (s.agent.loopTurn now w)).told, p.IsStorable) :
    InStep path old (after s.told (s.agent.loopTurn now w)) := by
  have hleaves := h.leaves.congr hw.file
  revert hp
  unfold Agent.loopTurn
  cases hl : s.agent.loop with
  | waiting e =>
      intro _
      have hlast := h.last
      unfold Agent.awaited? at hlast
      rw [hl] at hlast
      exact .endCycle hleaves hlast.symm now
  | absent =>
      intro _
      have hidle : s.agent.awaited? = none := by simp [Agent.awaited?, hl]
      exact .after_idle hleaves hidle (h.accepted hidle)
  | left fault =>
      intro _
      have hidle : s.agent.awaited? = none := by simp [Agent.awaited?, hl]
      exact .after_idle hleaves hidle (h.accepted hidle)
  | asleep wake =>
      have hidle : s.agent.awaited? = none := by simp [Agent.awaited?, hl]
      dsimp only
      split
      · intro _
        exact .after_idle hleaves rfl (h.accepted hidle)
      · exact fun hp => .beginCycle hleaves hw.server (h.accepted hidle) hp

theorem awaited?_answered {a b : Agent} (hloop : a.loop = b.loop) (h : b.awaited? = none)
    (told : List Payload) (sent : Agent.Sent) (v later : World) :
    (answered told sent a v later).agent.awaited? = none := by
  unfold answered
  cases sent.exchange.outcome with
  | error e => exact (Agent.awaited?_congr hloop).trans h
  | ok r =>
      have haccept := (a.accept_spec (some sent.payload) r later).2
      exact (Agent.awaited?_congr (haccept.trans hloop)).trans h

theorem InStep.report (h : InStep path old s) {now : Nat} {w v : World} {sent : Agent.Sent}
    {a : Agent} (hidle : s.agent.awaited? = none) (hw : s.Shows path w)
    (hsend : s.agent.sendReport now w = some (sent, a, v))
    {crew : Crew Duty Duty.Param Duty.Act} {later : World}
    (hp : ∀ p ∈ (answered s.told sent { a with crew } v later).told, p.IsStorable) :
    InStep path old (answered s.told sent { a with crew } v later) := by
  obtain ⟨haccepted, hloop, _⟩ := Agent.sendReport_statusFile hw.server hsend
  have hstill := awaited?_answered (a := { a with crew }) hloop hidle s.told sent v later
  have hknown := h.accepted hidle
  have hleaves := (h.leaves.congr hw.file).sendReport hw.server hknown hsend
  revert hp hstill
  unfold answered
  cases houtcome : sent.exchange.outcome with
  | ok r =>
      intro hp hstill
      rw [houtcome] at hleaves
      have hnew := (Agent.accept_spec { a with crew } (some sent.payload) r later).1
      exact .of_idle (hleaves fun _ => hp _ List.mem_cons_self) hstill hnew
  | error e =>
      intro _ hstill
      rw [houtcome] at hleaves
      exact .of_idle (hleaves Bool.noConfusion) hstill (haccepted.trans hknown)

theorem InStep.step (h : InStep path old s) (hs : Step path s s')
    (hp : ∀ p ∈ s'.told, p.IsStorable) : InStep path old s' := by
  cases hs with
  | work crew => exact ⟨h.leaves, h.last⟩
  | start now w hidle =>
      have hended : (s.agent.start now w).awaited? = none :=
        Agent.awaited?_eq_none (Agent.rest_reported? _ now w)
      exact .of_idle h.leaves hended ((Agent.rest_accepted _ now w).trans (h.accepted hidle))
  | stop => exact ⟨h.leaves, h.last⟩
  | turn now w hw => exact h.turn hw hp
  | report crew later hidle hw hsend => exact h.report hidle hw hsend hp

theorem Reachable.inStep (h : Reachable path old s) : InStep path old s := by
  induction h with
  | fresh hw hold hnew =>
      obtain ⟨_, crew, rfl⟩ := Agent.new_spec hnew
      have hnone : (Successor.last []).toDocument.keys = [] := rfl
      refine .of_idle ⟨old, hold, fun name => ?_⟩ rfl rfl
      simp [hnone]
  | step _ hs hp ih => exact ih.step hs hp

/-- While no answer is awaited, the file holds the names that the agent takes for
accepted, and those of the earlier document to which the agent has never given a value.
So the two agree exactly if it has given every name of that document a value. -/
theorem Reachable.leftovers (h : Reachable path old s) (hidle : s.agent.awaited? = none) :
    ∃ d, StatusFile.read s.files path = .ok d ∧ s.agent.accepted = Successor.last s.told ∧
      (∀ name, name ∈ d.keys ↔ name ∈ s.agent.accepted.toDocument.keys ∨
        name ∈ old.keys ∧ ∀ p ∈ s.told, name ∉ p.toDocument.keys) ∧
      (d.keys = s.agent.accepted.toDocument.keys ↔
        ∀ name ∈ old.keys, ∃ p ∈ s.told, name ∈ p.toDocument.keys) := by
  obtain ⟨d, hd, hnames⟩ := h.inStep.leaves
  have haccepted := h.inStep.accepted hidle
  rw [haccepted]
  refine ⟨d, hd.read, rfl, hnames, Table.keys_eq_iff.trans ⟨fun hsame name hold => ?_,
    fun hall name => ?_⟩⟩
  · by_contra hnever
    have hleft : ∀ p ∈ s.told, name ∉ p.toDocument.keys := by simpa using hnever
    have hthere := (hnames name).mpr (.inr ⟨hold, hleft⟩)
    exact not_left_of_mem_last s.told name ((hsame name).mp hthere) hleft
  · refine (hnames name).trans ⟨fun h => h.elim id fun hleft => ?_, .inl⟩
    obtain ⟨p, hp, hname⟩ := hall name hleft.1
    exact (hleft.2 p hp hname).elim

theorem Reachable.first {settings : Settings} {now : Nat} {w v : World} {agent a : Agent}
    {sent : Agent.Sent} (hw : w.server = .statusFile path) (hold : Holds w.files path old)
    (hwritable : StatusFile.Writable path w.files)
    (hnew : (Agent.new settings now w).1 = .ok agent)
    (hsend : agent.sendReport now w = some (sent, a, v)) (hp : sent.payload.IsStorable) :
    ∃ s, Reachable path old s ∧ s.agent.awaited? = none ∧ s.told = [sent.payload] := by
  have hidle : agent.awaited? = none := by
    obtain ⟨_, crew, rfl⟩ := Agent.new_spec hnew
    rfl
  have hloop := (Agent.sendReport_statusFile hw hsend).2.1
  obtain ⟨r, hr⟩ := Agent.sendReport_of_ready hw ⟨⟨old, hold.read⟩, hwritable⟩ hsend
  have hstep : Step path ⟨agent, w.files, []⟩ (answered [] sent a v w) :=
    .report a.crew w hidle ⟨hw, rfl⟩ hsend
  have htold : (answered [] sent a v w).told = [sent.payload] := by
    unfold answered
    rw [hr]
  exact ⟨_, .step (.fresh hw hold hnew) hstep (by simpa [htold] using hp),
    awaited?_answered hloop hidle [] sent v w, htold⟩

/-! ## A host that has no name any more -/

/-- The text that an earlier agent has left. -/
def bequest : String := "\x7b\"hostname\":\"edge\"\x7d"

def bequestWorld : World where
  server := .statusFile ["status.json"]
  files := ⟨[(["status.json"], .file (some bequest))]⟩

theorem document_bequest : (Json.document bequest).toOption.any (·.keys = ["hostname"]) := by
  decide +kernel

theorem exists_bequeathed : ∃ old, Holds bequestWorld.files ["status.json"] old ∧
    old.keys = ["hostname"] := by
  have hkeys := document_bequest
  cases hread : Json.document bequest with
  | error e =>
      rw [hread] at hkeys
      cases hkeys
  | ok old =>
      rw [hread] at hkeys
      exact ⟨old, ⟨bequest, rfl, hread⟩, of_decide_eq_true hkeys⟩

def firstPayload : Option Payload :=
  match (Agent.new {} 0 bequestWorld).1 with
  | .ok agent => (agent.sendReport 0 bequestWorld).map (·.1.payload)
  | .error _ => none

theorem firstPayload_keys : firstPayload.any fun p =>
    p.IsStorable ∧ p.toDocument.keys = ["current-time", "status", "status-notes"] := by
  decide +kernel

theorem exists_heir : ∃ old s, Holds bequestWorld.files ["status.json"] old ∧
    old.keys = ["hostname"] ∧ Reachable ["status.json"] old s ∧ s.agent.awaited? = none ∧
    s.told.map (·.toDocument.keys) = [["current-time", "status", "status-notes"]] := by
  obtain ⟨old, hold, holdKeys⟩ := exists_bequeathed
  have hfirst := firstPayload_keys
  unfold firstPayload at hfirst
  cases hnew : (Agent.new {} 0 bequestWorld).1 with
  | error e =>
      rw [hnew] at hfirst
      cases hfirst
  | ok agent =>
      cases hsend : agent.sendReport 0 bequestWorld with
      | none => simp [hnew, hsend] at hfirst
      | some out =>
          obtain ⟨sent, a, v⟩ := out
          obtain ⟨hp, hkeys⟩ : sent.payload.IsStorable ∧ sent.payload.toDocument.keys = _ := by
            simpa [hnew, hsend] using hfirst
          obtain ⟨s, hs, hidle, htold⟩ :=
            Reachable.first rfl hold ⟨rfl, by decide, by decide⟩ hnew hsend hp
          exact ⟨old, s, hold, holdKeys, hs, hidle, by rw [htold, List.map_singleton, hkeys]⟩

theorem leftovers_heir : ∃ old s, Holds bequestWorld.files ["status.json"] old ∧
    Reachable ["status.json"] old s ∧ s.agent.awaited? = none ∧ s.told.length = 1 ∧
    ∃ d, StatusFile.read s.files ["status.json"] = .ok d ∧
      (d.keys = s.agent.accepted.toDocument.keys ↔
        ∀ name ∈ old.keys, ∃ p ∈ s.told, name ∈ p.toDocument.keys) := by
  obtain ⟨old, s, hold, _, hs, hidle, htold⟩ := exists_heir
  obtain ⟨d, hread, _, _, hsame⟩ := Reachable.leftovers hs hidle
  exact ⟨old, s, hold, hs, hidle, by simpa using congrArg List.length htold, d, hread, hsame⟩

/-- The name of the host stays in the file after the first accepted report, and is not in
the payload that the agent takes for accepted. -/
theorem hostname_remains : ∃ old s, Holds bequestWorld.files ["status.json"] old ∧
    Reachable ["status.json"] old s ∧ s.agent.awaited? = none ∧ s.told.length = 1 ∧
    ∃ d, StatusFile.read s.files ["status.json"] = .ok d ∧ "hostname" ∈ d.keys ∧
      d.keys ≠ s.agent.accepted.toDocument.keys := by
  obtain ⟨old, s, hold, hkeys, hs, hidle, htold⟩ := exists_heir
  obtain ⟨p, hp, hnew⟩ := List.map_eq_singleton_iff.mp htold
  obtain ⟨d, hd, hnames⟩ := hs.inStep.leaves
  have haccepted : s.agent.accepted = p := by
    rw [hs.inStep.accepted hidle, hp]
    rfl
  have hremains : "hostname" ∈ d.keys := by
    refine (hnames "hostname").mpr (.inr ⟨by rw [hkeys]; decide, fun q hq => ?_⟩)
    rw [hp, List.mem_singleton] at hq
    rw [hq, hnew]
    decide
  refine ⟨old, s, hold, hs, hidle, by rw [hp]; rfl, d, hd.read, hremains, fun hsame => ?_⟩
  rw [hsame, haccepted, hnew] at hremains
  exact absurd hremains (by decide)

end Successor
end EdgeAgent
