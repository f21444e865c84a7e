import EdgeAgent.Proofs.Agenda.Age
import EdgeAgent.Proofs.Agent.Standing

/-! # Rounds of the loop

The loop fires an action, waits for what its operation asks of the server, and rests.
What an agent knows of the server changes with answers that come in time, and with
nothing else.
-/

namespace EdgeAgent

/-- What an agent has learnt from the server. -/
structure Known where
  accepted : Payload
  telemetryPeriod : Nat
  heartbeatPeriod : Nat

/-- Reports that are less than fifteen seconds apart are not asked for, nor is every moment. -/
def Known.adopt (k : Known) (p : Option Payload) (r : Response) : Known where
  accepted := p.getD k.accepted
  telemetryPeriod := match r.refreshInterval with
    | some s => if 15 ≤ s then Duration.ofSeconds s else k.telemetryPeriod
    | none => k.telemetryPeriod
  heartbeatPeriod := match r.heartbeatInterval with
    | some s => if s = 0 then k.heartbeatPeriod else Duration.ofSeconds s
    | none => k.heartbeatPeriod

/-- What the answer asks of the agent, if the request is accepted. -/
def Answer.response? (a : Answer) : Option Response :=
  match a.verdict with
  | .accept => some {}
  | .refuse _ => none
  | .respond v => Response.ofJson? v

theorem Answer.outcome_eq_ok_iff (a : Answer) (q : Request) (r : Response) :
    a.outcome q = .ok r ↔ a.response? = some r := by
  unfold outcome response?
  cases a.verdict with
  | accept => simp
  | refuse reason => simp
  | respond v => cases h : Response.ofJson? v <;> simp [h]

/-- What the server answers to an operation, if that asks for anything. -/
def Remote.answerTo (s : Remote) : Operation → Option Answer
  | .heartbeat => some (s.heartbeat.take.1.getD {})
  | .report => some (s.telemetry.take.1.getD {})
  | .watch => none

def World.asked (w : World) : List (Nat × Request) :=
  match w.server with
  | .remote s => s.received
  | .statusFile _ => []

/-! ## Rounds -/

/-- An action has been fired, and its operation was dispatched. -/
structure Round where
  /-- The action with the period that it had. -/
  action : Action Operation
  begun : Nat
  answer : Option Answer
  /-- What is reported. -/
  payload : Option Payload
  ended : Option Nat

namespace Round

/-- When the operation finishes, if it is waited for. -/
def finishes (r : Round) : Nat :=
  match r.answer with
  | some a => Instant.endOfWait r.begun a.delay
  | none => r.begun

/-- When the operation is given up: it is waited for twice, for a period each. -/
def drop (r : Round) : Nat :=
  Instant.endOfWait (Instant.endOfWait r.begun r.action.period) r.action.period

def response? (r : Round) : Option Response := r.answer.bind (·.response?)

/-- The request that the operation sends. -/
def request? (r : Round) : Option (Nat × String) :=
  match r.action.task with
  | .heartbeat => some (r.begun, "heartbeat")
  | .report => some (r.begun, "telemetry")
  | .watch => none

theorem begun_le_drop (r : Round) : r.begun ≤ r.drop := by
  have hfirst := Instant.le_endOfWait r.begun r.action.period
  have hsecond := Instant.le_endOfWait (Instant.endOfWait r.begun r.action.period) r.action.period
  unfold drop
  omega

theorem begun_le_finishes (r : Round) : r.begun ≤ r.finishes := by
  unfold finishes
  cases r.answer with
  | none => exact Nat.le_refl _
  | some answer => exact Nat.le_trans (Nat.le_add_right ..) (Instant.le_endOfWait r.begun _)

theorem begun_le_min (r : Round) : r.begun ≤ min r.finishes r.drop :=
  Nat.le_min.mpr ⟨r.begun_le_finishes, r.begun_le_drop⟩

end Round

/-- A response is applied if its operation has finished by the time it would be given up. -/
def Known.after (k : Known) (r : Round) : Known :=
  if r.ended.isSome ∧ r.finishes ≤ r.drop then
    match r.response? with
    | some response => k.adopt r.payload response
    | none => k
  else k

/-- The errand of a round. -/
structure Errand.Serves (e : Errand) (r : Round) : Prop where
  ending : e.ending.rings = r.finishes
  drop : e.drop.rings = r.drop
  payload : e.payload = r.payload
  response : ∀ x, e.outcome = .ok x ↔ r.response? = some x

namespace Agent

variable {a b : Agent}

def known (a : Agent) : Known := ⟨a.accepted, a.telemetryPeriod, a.heartbeatPeriod⟩

def isWaiting (a : Agent) : Bool :=
  match a.loop with
  | .waiting _ => true
  | _ => false

/-- The agent has learnt and run nothing more, and is asked to stop if it was before. -/
structure Keeps (a b : Agent) : Prop where
  known : b.known = a.known
  stopping : b.stopping = a.stopping
  runs : ∀ name, b.agenda.runsOf name = a.agenda.runsOf name

theorem Keeps.trans {c : Agent} (h : a.Keeps b) (h' : b.Keeps c) : a.Keeps c :=
  ⟨h'.known.trans h.known, h'.stopping.trans h.stopping,
    fun name => (h'.runs name).trans (h.runs name)⟩

/-- The workers and the agenda are in order. -/
structure Fit (s : Settings) (born now : Nat) (a : Agent) : Prop where
  inStep : a.InStep s false
  young : a.agenda.Young born
  counted : a.agenda.counted ≤ now

/-- The loop has gone to sleep, or it is left for a countdown that cannot be told. -/
def Rests (born now : Nat) (a : Agent) : Prop :=
  (∃ wake, a.loop = .asleep wake) ∨
    a.loop = .left (some .outOfRange) ∧ Action.maxCountdown < now - born

theorem Rests.not_isWaiting {born now : Nat} (h : a.Rests born now) : a.isWaiting = false := by
  unfold isWaiting
  rcases h with ⟨wake, h⟩ | ⟨h, _⟩ <;> rw [h]

variable {s : Settings} {born now : Nat}

theorem Fit.later (h : a.Fit s born now) {later : Nat} (hle : now ≤ later) : a.Fit s born later :=
  ⟨h.inStep, h.young, Nat.le_trans h.counted hle⟩

theorem Fit.withLoop (h : a.Fit s born now) (loop : AgentLoop) :
    ({ a with loop } : Agent).Fit s born now :=
  ⟨h.inStep.withLoop loop, h.young, h.counted⟩

theorem Fit.rest (h : a.Fit s born now) (w : World) :
    (a.rest now w).Fit s born now ∧ (a.rest now w).Rests born now ∧ a.Keeps (a.rest now w) := by
  have hstep := h.inStep.rest now w
  revert hstep
  unfold Agent.rest
  rcases h.young.sleepTime h.counted with
    ⟨span, agenda, hsleep, hyoung, hnow, hruns⟩ | ⟨hfault, hold⟩
  · rw [hsleep]
    intro hstep
    exact ⟨⟨hstep, hyoung, Nat.le_of_eq hnow⟩, .inl ⟨_, rfl⟩, rfl, rfl, hruns⟩
  · rw [hfault]
    intro hstep
    exact ⟨⟨hstep, h.young, h.counted⟩, .inr ⟨rfl, hold⟩, rfl, rfl, fun _ => rfl⟩

/-! ## Answers -/

theorem adoptTelemetryPeriod_known {lent : Bool} (h : a.InStep s lent) (period : Nat) :
    (a.adoptTelemetryPeriod period).known =
      { a.known with
        telemetryPeriod := if Crew.minPeriod ≤ period then period else a.telemetryPeriod } := by
  obtain ⟨u, hu, _⟩ := h.worker
  have hworker : a.crew.workers.contains telemetryWorker = true := by simp [Table.contains, hu]
  unfold Agent.adoptTelemetryPeriod Crew.editPeriod
  rw [hworker]
  by_cases hlong : Crew.minPeriod ≤ period
  · simp only [hlong, decide_true, Bool.and_self, if_true]
    rfl
  · simp only [hlong, decide_false, Bool.and_false, Bool.false_eq_true, if_false]
    rfl

theorem adopt_known {lent : Bool} (h : a.InStep s lent) (r : Response) :
    (a.adopt r).known = a.known.adopt none r := by
  have hlong : ∀ n, Crew.minPeriod ≤ Duration.ofSeconds n ↔ 15 ≤ n := by
    intro n
    unfold Crew.minPeriod Duration.ofSeconds
    omega
  have hzero : ∀ n, Duration.ofSeconds n = 0 ↔ n = 0 := by
    intro n
    unfold Duration.ofSeconds
    omega
  unfold Agent.adopt
  extract_lets b
  have hb : b.known =
      { a.known with telemetryPeriod := (a.known.adopt none r).telemetryPeriod } := by
    unfold b Known.adopt
    cases r.refreshInterval with
    | none => rfl
    | some n =>
        simp only [Option.map_some]
        by_cases hsame : Duration.ofSeconds n = a.telemetryPeriod
        · rw [if_pos hsame, hsame]
          simp [known]
        · rw [if_neg hsame, adoptTelemetryPeriod_known h]
          simp only [hlong, known]
  have hbeat : b.heartbeatPeriod = a.heartbeatPeriod := congrArg Known.heartbeatPeriod hb
  -- What comes next depends on `b` only through what it knows.
  clear_value b
  have hknown : a.known.adopt none r =
      { b.known with heartbeatPeriod := (a.known.adopt none r).heartbeatPeriod } := by
    rw [hb]
    rfl
  rw [hknown]
  unfold Known.adopt
  cases r.heartbeatInterval with
  | none => simp [known, hbeat]
  | some n =>
      simp only [Option.map_some, hzero]
      by_cases hsame : Duration.ofSeconds n = b.heartbeatPeriod
      · rw [if_pos (.inl hsame), hsame, hbeat]
        simp [known, hbeat]
      · by_cases hn : n = 0
        · rw [if_pos (.inr hn), if_pos hn]
          simp [known, hbeat]
        · rw [if_neg (not_or.mpr ⟨hsame, hn⟩), if_neg hn]
          rfl

theorem accept_known {lent : Bool} (h : a.InStep s lent) (p : Option Payload) (r : Response)
    (w : World) : (a.accept p r w).1.known = a.known.adopt p r := by
  cases p with
  | none => exact adopt_known h r
  | some p =>
      have h : ({ a with accepted := p } : Agent).InStep s lent :=
        ⟨h.worker, h.actions, h.floor, h.beating⟩
      exact adopt_known h r

theorem accept_agenda {P : Agenda Operation → Prop}
    (hP : ∀ g key period, P g → P (g.editPeriod key period).2) (h : P a.agenda)
    (p : Option Payload) (r : Response) (w : World) : P (a.accept p r w).1.agenda := by
  have htelemetry : ∀ (b : Agent) period,
      P b.agenda → P (b.adoptTelemetryPeriod period).agenda := by
    intro b period hb
    unfold adoptTelemetryPeriod
    split
    · exact hb
    · exact hP _ _ _ hb
  have hadopt : ∀ b : Agent, P b.agenda → P (b.adopt r).agenda := by
    intro b hb
    unfold adopt
    extract_lets c
    have hc : P c.agenda := by
      unfold c
      split
      · split
        · exact hb
        · exact htelemetry b _ hb
      · exact hb
    split
    · split
      · exact hc
      · exact hP _ _ _ hc
    · exact hc
  cases p <;> exact hadopt _ h

theorem accept_stopping (a : Agent) (p : Option Payload) (r : Response) (w : World) :
    (a.accept p r w).1.stopping = a.stopping := by
  have htelemetry : ∀ (b : Agent) period,
      (b.adoptTelemetryPeriod period).stopping = b.stopping := by
    intro b period
    unfold adoptTelemetryPeriod
    split <;> rfl
  have hadopt : ∀ b : Agent, (b.adopt r).stopping = b.stopping := by
    intro b
    unfold adopt
    dsimp only
    repeat' split
    all_goals first
      | rfl
      | exact htelemetry b _
  cases p <;> exact hadopt _

theorem Fit.accept (h : a.Fit s born now) (p : Option Payload) (r : Response) (w : World) :
    (a.accept p r w).1.Fit s born now ∧ (a.accept p r w).1.known = a.known.adopt p r ∧
      (a.accept p r w).1.stopping = a.stopping ∧
      ∀ name, (a.accept p r w).1.agenda.runsOf name = a.agenda.runsOf name := by
  have hagenda := accept_agenda (a := a)
    (P := fun g => g.Young born ∧ g.counted ≤ now ∧ ∀ name, g.runsOf name = a.agenda.runsOf name)
    (fun g key period hg => ⟨hg.1.editPeriod key period, hg.2.1, fun name =>
      (g.runsOf_editPeriod key period name).trans (hg.2.2 name)⟩)
    ⟨h.young, h.counted, fun _ => rfl⟩ p r w
  obtain ⟨hyoung, hcounted, hruns⟩ := hagenda
  exact ⟨⟨h.inStep.accept p r w, hyoung, hcounted⟩, accept_known h.inStep p r w,
    accept_stopping a p r w, hruns⟩

theorem watch_asked (a : Agent) (now : Nat) (w : World) :
    (a.watch now w).2.asked = w.asked := by
  have hserver : (a.watch now w).2.server = w.server :=
    watch_world (f := World.server) (fun _ _ _ _ => rfl) a now w
  unfold World.asked
  rw [hserver]

theorem Fit.watch (h : a.Fit s born now) (w : World) :
    (a.watch now w).1.Fit s born now ∧ a.Keeps (a.watch now w).1 := by
  have hstep := h.inStep.watch now w
  obtain ⟨crew, hcrew⟩ := watch_crew a now w
  rw [hcrew] at hstep ⊢
  exact ⟨⟨hstep, h.young, h.counted⟩, rfl, rfl, fun _ => rfl⟩

/-! ## Requests -/

theorem send_of_remote {w : World} {server : Remote} (hw : w.server = .remote server) (now : Nat)
    (q : Request) :
    w.send now q = (⟨(server.receive now q).1.delay, (server.receive now q).1.outcome q⟩,
      { w with server := .remote (server.receive now q).2 }) := by
  unfold World.send
  rw [hw]

theorem InStep.exists_telemetry {lent : Bool} (h : a.InStep s lent) :
    ∃ t, a.telemetry? = some t := by
  obtain ⟨u, hu, hserves⟩ := h.worker
  obtain ⟨t, hunit, _⟩ := hserves.follows.unit
  refine ⟨t, ?_⟩
  unfold telemetry?
  rw [hu, Option.bind_some, hunit]
  rfl

theorem InStep.exists_sent {lent : Bool} (h : a.InStep s lent) {w : World} {server : Remote}
    (hw : w.server = .remote server) (now : Nat) :
    ∃ sent b v data delete, a.sendReport now w = some (sent, b, v) ∧
      sent.exchange = ⟨(server.telemetry.take.1.getD {}).delay,
        (server.telemetry.take.1.getD {}).outcome (.telemetry data delete)⟩ ∧
      v.asked = (now, .telemetry data delete) :: server.received := by
  obtain ⟨t, ht⟩ := h.exists_telemetry
  obtain ⟨p, b, v, hcollect⟩ : ∃ p b v, a.collect w = some (p, b, v) := by
    unfold Agent.collect
    rw [ht]
    exact ⟨_, _, _, rfl⟩
  have hserver := (collect_spec hcollect).2.2.trans hw
  unfold Agent.sendReport
  simp only [hcollect, Option.bind_eq_bind, Option.bind_some, Option.pure_def,
    send_of_remote hserver]
  exact ⟨_, _, _, _, _, rfl, rfl, rfl⟩

/-! ## Turns of the loop -/

/-- The round that begins when an action is fired, in the surroundings of a server. -/
def roundOf (x : Action Operation) (now : Nat) (server : Remote) (after : Agent) : Round where
  action := x
  begun := now
  answer := server.answerTo x.task
  payload := after.reported?
  ended := if after.isWaiting then none else some now

def Enters (born now : Nat) (b : Agent) (r : Round) : Prop :=
  (∃ e, b.loop = .waiting e ∧ e.Serves r) ∨ b.Rests born now ∧ r.answer = none

theorem await_enters (a : Agent) (x : Action Operation) {server : Remote} {answer : Answer}
    (hanswer : server.answerTo x.task = some answer) (q : Request) (p : Option Payload)
    (now : Nat) (w : World) :
    (a.await x ⟨answer.delay, answer.outcome q⟩ p now w).Enters born now
      (roundOf x now server (a.await x ⟨answer.delay, answer.outcome q⟩ p now w)) := by
  refine .inl ⟨_, rfl, ?_, ?_, rfl, ?_⟩
  · show (Timer.after now answer.delay w.rank).rings = _
    simp only [Timer.rings_after, Round.finishes, roundOf, hanswer]
  · show (dropTimer now x.period w).rings = _
    simp only [dropTimer, Timer.rings_after, Round.drop, roundOf]
  · intro r
    show answer.outcome q = .ok r ↔ _
    rw [answer.outcome_eq_ok_iff, Round.response?]
    simp only [roundOf, hanswer, Option.bind_some]

theorem Fit.dispatch (h : a.Fit s born now) (x : Action Operation) {w : World} {server : Remote}
    (hw : w.server = .remote { server with received := [] }) :
    (a.dispatch x now w).1.Fit s born now ∧ a.Keeps (a.dispatch x now w).1 ∧
      (a.dispatch x now w).1.Enters born now (roundOf x now server (a.dispatch x now w).1) ∧
      (a.dispatch x now w).2.asked.map (fun m => (m.1, m.2.operation)) =
        (roundOf x now server (a.dispatch x now w).1).request?.toList := by
  have hstep := h.inStep.dispatch x now w
  revert hstep
  unfold Agent.dispatch
  cases htask : x.task with
  | heartbeat =>
      intro hstep
      have hanswer : server.answerTo x.task = some (server.heartbeat.take.1.getD {}) := by
        rw [htask]
        rfl
      dsimp only at hstep ⊢
      rw [send_of_remote hw] at hstep ⊢
      refine ⟨⟨hstep, h.young, h.counted⟩, ⟨rfl, rfl, fun _ => rfl⟩,
        await_enters a x hanswer .heartbeat none now _, ?_⟩
      simp only [Round.request?, roundOf, htask]
      rfl
  | report =>
      intro hstep
      have hanswer : server.answerTo x.task = some (server.telemetry.take.1.getD {}) := by
        rw [htask]
        rfl
      obtain ⟨sent, b, v, data, delete, hsend, hexchange, hreceived⟩ := h.inStep.exists_sent hw now
      obtain ⟨crew, rfl⟩ := sendReport_crew hsend
      dsimp only at hstep ⊢
      rw [hsend] at hstep ⊢
      dsimp only at hstep ⊢
      rw [hexchange] at hstep ⊢
      refine ⟨⟨hstep, h.young, h.counted⟩, ⟨rfl, rfl, fun _ => rfl⟩,
        await_enters _ x hanswer _ (some sent.payload) now v, ?_⟩
      rw [hreceived]
      simp only [Round.request?, roundOf, htask]
      rfl
  | watch =>
      intro hstep
      have hasked := watch_asked a now w
      obtain ⟨hwatched, hkept⟩ := h.watch w
      obtain ⟨hfit, hrests, hkeeps⟩ := hwatched.rest (a.watch now w).2
      refine ⟨hfit, hkept.trans hkeeps, .inr ⟨hrests, ?_⟩, ?_⟩
      · simp only [roundOf, htask]
        rfl
      · dsimp only
        rw [hasked]
        simp only [World.asked, hw, Round.request?, roundOf, htask]
        rfl

/-- The action that a turn of the loop fires. -/
def fired? (a : Agent) (now : Nat) : Option (Action Operation) :=
  match a.loop with
  | .asleep _ =>
    if a.stopping then none
    else
      match a.agenda.callNext now with
      | .ok (fired, _) => fired
      | .error _ => none
  | _ => none

/-- What becomes of a loop that was asleep. -/
structure Wakes (s : Settings) (born now : Nat) (a b : Agent) (server : Remote)
    (received : List (Nat × Request)) : Prop where
  fit : b.Fit s born now
  known : b.known = a.known
  stopping : b.stopping = a.stopping
  runs : ∀ name, b.agenda.runsOf name =
    a.agenda.runsOf name + if (a.fired? now).any (·.name = name) then 1 else 0
  idle : a.fired? now = none → b.Rests born now ∨ b.loop = .left none ∧ b.stopping = true
  busy : ∀ x, a.fired? now = some x → b.Enters born now (roundOf x now server b)
  requests : received.map (fun m => (m.1, m.2.operation)) =
    ((a.fired? now).bind fun x => (roundOf x now server b).request?).toList

theorem Wakes.of_unfired {server : Remote} {received : List (Nat × Request)}
    (hfired : a.fired? now = none) (hfit : b.Fit s born now) (hkeeps : a.Keeps b)
    (hidle : b.Rests born now ∨ b.loop = .left none ∧ b.stopping = true)
    (hreceived : received = []) : a.Wakes s born now b server received := by
  refine ⟨hfit, hkeeps.known, hkeeps.stopping, ?_, fun _ => hidle, ?_, ?_⟩
  · intro name
    simp [hfired, hkeeps.runs name]
  · simp [hfired]
  · simp [hfired, hreceived]

theorem fired?_of_asleep {wake : Timer} (hloop : a.loop = .asleep wake)
    (hgoing : a.stopping = false) (now : Nat) :
    a.fired? now = match a.agenda.callNext now with
      | .ok (fired, _) => fired
      | .error _ => none := by
  unfold fired?
  rw [hloop, hgoing]
  rfl

/-- The loop goes to its next round: an action is fired, or it was woken too early, or the
time that has passed cannot be told. -/
theorem Fit.beginCycle (h : a.Fit s born now) {wake : Timer} (hloop : a.loop = .asleep wake)
    (hgoing : a.stopping = false) {w : World} {server : Remote}
    (hw : w.server = .remote { server with received := [] }) :
    a.Wakes s born now (a.beginCycle now w).1 server (a.beginCycle now w).2.asked := by
  have hsaid : (w.say moduleName .running "").server = .remote { server with received := [] } := hw
  have hsilent : (w.say moduleName .running "").asked = [] := by
    unfold World.asked
    rw [hsaid]
  have hfired := fired?_of_asleep hloop hgoing now
  unfold Agent.beginCycle
  rcases h.young.callNext h.counted with
    ⟨fired, agenda, hcall, hyoung, hnow, hruns⟩ | ⟨hfault, hold⟩
  · rw [hcall] at hfired ⊢
    have hactions := (Agenda.callNext_cards hcall).1.trans h.inStep.actions
    have hcalled : ({ a with agenda } : Agent).Fit s born now :=
      ⟨⟨h.inStep.worker, hactions, h.inStep.floor, h.inStep.beating⟩, hyoung, Nat.le_of_eq hnow⟩
    cases fired with
    | none =>
        obtain ⟨hfit, hrests, hkeeps⟩ := hcalled.rest (w.say moduleName .running "")
        have hkept : a.Keeps ({ a with agenda } : Agent) := ⟨rfl, rfl, fun name => hruns name⟩
        exact .of_unfired hfired hfit (hkept.trans hkeeps) (.inl hrests) hsilent
    | some x =>
        obtain ⟨hfit, hkeeps, henters, hrequests⟩ := hcalled.dispatch x hsaid
        refine ⟨hfit, hkeeps.known, hkeeps.stopping, ?_, ?_, ?_, ?_⟩
        · intro name
          rw [hfired]
          exact (hkeeps.runs name).trans (hruns name)
        · simp [hfired]
        · intro y hy
          rw [hfired] at hy
          cases hy
          exact henters
        · rw [hfired]
          exact hrequests
  · rw [hfault] at hfired ⊢
    exact .of_unfired hfired (h.withLoop _) ⟨rfl, rfl, fun _ => rfl⟩ (.inl (.inr ⟨rfl, hold⟩))
      hsilent

theorem Fit.wakes (h : a.Fit s born now) {wake : Timer} (hloop : a.loop = .asleep wake) {w : World}
    {server : Remote} (hw : w.server = .remote { server with received := [] }) :
    a.Wakes s born now (a.loopTurn now w).1 server (a.loopTurn now w).2.asked := by
  unfold Agent.loopTurn
  rw [hloop]
  dsimp only
  split
  case isFalse hgoing => exact h.beginCycle hloop (eq_false_of_ne_true hgoing) hw
  case isTrue hstopping =>
      have hfired : a.fired? now = none := by
        unfold fired?
        rw [hloop]
        exact if_pos hstopping
      have hsilent : w.asked = [] := by
        unfold World.asked
        rw [hw]
      exact .of_unfired hfired (h.withLoop _) ⟨rfl, rfl, fun _ => rfl⟩ (.inr ⟨rfl, hstopping⟩)
        hsilent

theorem Fit.endCycle (h : a.Fit s born now) {e : Errand} {r : Round} (he : e.Serves r) (w : World) :
    (a.endCycle e now w).1.Fit s born now ∧ (a.endCycle e now w).1.Rests born now ∧
      (a.endCycle e now w).1.known = a.known.after { r with ended := some now } ∧
      (a.endCycle e now w).1.stopping = a.stopping ∧
      (∀ name, (a.endCycle e now w).1.agenda.runsOf name = a.agenda.runsOf name) ∧
      (a.endCycle e now w).2.asked = w.asked := by
  have hfinishes : ({ r with ended := some now } : Round).finishes = r.finishes := rfl
  have hdrop : ({ r with ended := some now } : Round).drop = r.drop := rfl
  have hresponse : ({ r with ended := some now } : Round).response? = r.response? := rfl
  have hresting : ∀ v, (a.rest now v).Fit s born now ∧ (a.rest now v).Rests born now ∧
      a.Keeps (a.rest now v) := h.rest
  unfold Agent.endCycle Known.after
  rw [hfinishes, hdrop, hresponse, he.ending, he.drop]
  by_cases htimely : r.finishes ≤ r.drop
  · rw [if_pos htimely, if_pos ⟨rfl, htimely⟩]
    cases houtcome : e.outcome with
    | ok x =>
        have hx := (he.response x).mp houtcome
        obtain ⟨haccepted, hknown, hstopping, hruns⟩ := h.accept e.payload x w
        obtain ⟨hfit, hrests, hkeeps⟩ := haccepted.rest (a.accept e.payload x w).2
        rw [hx]
        refine ⟨hfit, hrests, ?_, hkeeps.stopping.trans hstopping, ?_, rfl⟩
        · rw [← he.payload]
          exact hkeeps.known.trans hknown
        · exact fun name => (hkeeps.runs name).trans (hruns name)
    | error x =>
        have hnone : r.response? = none := by
          cases hr : r.response? with
          | none => rfl
          | some y => exact nomatch houtcome.symm.trans ((he.response y).mpr hr)
        obtain ⟨hfit, hrests, hkeeps⟩ := hresting w
        rw [hnone]
        exact ⟨hfit, hrests, hkeeps.known, hkeeps.stopping, hkeeps.runs, rfl⟩
  · obtain ⟨hfit, hrests, hkeeps⟩ := hresting w
    rw [if_neg htimely, if_neg fun h => htimely h.2]
    exact ⟨hfit, hrests, hkeeps.known, hkeeps.stopping, hkeeps.runs, rfl⟩

end Agent
end EdgeAgent
