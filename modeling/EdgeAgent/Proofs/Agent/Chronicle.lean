import EdgeAgent.Proofs.Agent.Rounds
import EdgeAgent.Proofs.Clock.Steady

/-! # A chronicle of the loop

The loop of an agent is followed from its start, in whatever surroundings, with a record
of its rounds and of the requests that it sends. What one step keeps is kept by all of
them: the record agrees with the agent, and time does not run past what is in flight.
-/

namespace EdgeAgent

/-- A loop that has been started, with what came of it so far, the last one first. -/
structure Chronicle where
  timeline : Timeline Agent
  /-- What the agent knew when the loop was started. -/
  initial : Known
  rounds : List Round := []
  /-- The requests of the loop, as they reached the server. -/
  wire : List (Nat × Request) := []

namespace Chronicle

def agent (c : Chronicle) : Agent := c.timeline.part

def now (c : Chronicle) : Nat := c.timeline.now

def endFirst (now : Nat) : List Round → List Round
  | [] => []
  | r :: rest => { r with ended := some now } :: rest

/-- The chronicle after a turn of the loop, with the requests that the server has received
in the turn. -/
def record (c : Chronicle) (t : Timeline Agent) (server : Remote) : Chronicle :=
  { c with
    timeline := t
    rounds := match c.agent.fired? t.now with
      | some x => Agent.roundOf x t.now server t.part :: c.rounds
      | none => if c.agent.isWaiting then endFirst t.now c.rounds else c.rounds
    wire := t.world.asked ++ c.wire }

/-- The turn that is due is taken, of the loop or of the workers. -/
def turn (c : Chronicle) (timer : Timer) (w : World) (server : Remote) : Chronicle :=
  let surroundings := { w with server := .remote { server with received := [] } }
  let t := (c.timeline.amend fun _ => surroundings).take timer.rings
  if Timer.isFirst (c.agent.loopDue t.now) (c.agent.crew.due t.now) then c.record t server
  else { c with timeline := t }

/-- What may befall an agent whose loop was started. -/
inductive Event where
  /-- Time passes, though not beyond what is due. -/
  | pass (instant : Nat)
  /-- The loop is asked to end. -/
  | stop
  /-- A turn is taken, in any surroundings and with any answers of the server. -/
  | turn (w : World) (server : Remote)

def step? (c : Chronicle) : Event → Option Chronicle
  | .pass instant =>
    if c.now ≤ instant ∧ (c.agent.due c.now).all (instant ≤ ·.rings) then
      some { c with timeline := { c.timeline with now := instant } }
    else none
  | .stop => some { c with timeline := { c.timeline with part := c.agent.stop } }
  | .turn w server => (c.agent.due c.now).map fun timer => c.turn timer w server

/-- The loop is started. -/
def begin (t : Timeline Agent) : Chronicle where
  timeline := t.act fun a now w => (a.start now w, w)
  initial := t.part.known

/-- Agents that wait to be started: new ones, and those after their startup. -/
inductive Ready (s : Settings) (born : Nat) : Timeline Agent → Prop
  | new {part : Agent} (w world : World) (patience : Nat) : (Agent.new s born w).1 = .ok part →
      Ready s born { part, world, now := born, patience }
  | startup {part : Agent} (w world : World) (patience : Nat) : (Agent.new s born w).1 = .ok part →
      Ready s born (Agent.awaitStartup { part, world, now := born, patience }).2
  | pause {t : Timeline Agent} (span : Nat) : Ready s born t → Ready s born (t.pause span)

/-- What becomes of an agent that was made at an instant, once its loop is started. -/
inductive Reachable (s : Settings) (born : Nat) : Chronicle → Prop
  | begin {t : Timeline Agent} : Ready s born t → Reachable s born (begin t)
  | step {c d : Chronicle} (e : Event) :
      Reachable s born c → c.step? e = some d → Reachable s born d

/-- What every step keeps. -/
structure Sound (s : Settings) (born : Nat) (c : Chronicle) : Prop where
  fit : c.agent.Fit s born c.now
  place :
    (c.agent.Rests born c.now ∨ c.agent.loop = .left none ∧ c.agent.stopping = true) ∧
        (∀ r ∈ c.rounds, r.ended ≠ none) ∨
      ∃ e r rest, c.agent.loop = .waiting e ∧ c.rounds = r :: rest ∧ r.ended = none ∧
        e.Serves r ∧ c.now ≤ min r.finishes r.drop ∧ ∀ r ∈ rest, r.ended ≠ none
  ended : ∀ r ∈ c.rounds, ∀ i, r.ended = some i → i = min r.finishes r.drop
  runs : ∀ name, c.agent.agenda.runsOf name =
    (c.rounds.filter fun r => r.action.name = name).length
  requests : c.wire.map (fun m => (m.1, m.2.operation)) = c.rounds.filterMap Round.request?
  known : c.agent.known = c.rounds.foldr (fun r k => k.after r) c.initial

/-! ## What is learnt -/

theorem after_of_open {k : Known} {r : Round} (h : r.ended = none) : k.after r = k := by
  unfold Known.after
  rw [h]
  exact if_neg fun hended => nomatch hended.1

theorem after_of_silent {k : Known} {r : Round} (h : r.answer = none) : k.after r = k := by
  unfold Known.after Round.response?
  rw [h]
  split <;> rfl

theorem after_of_enters {born now : Nat} {server : Remote} {x : Action Operation} {b : Agent}
    (h : b.Enters born now (Agent.roundOf x now server b)) (k : Known) :
    k.after (Agent.roundOf x now server b) = k := by
  rcases h with ⟨e, hloop, _⟩ | ⟨_, hsilent⟩
  · refine after_of_open ?_
    simp [Agent.roundOf, Agent.isWaiting, hloop]
  · exact after_of_silent hsilent

theorem ended_of_enters {born now : Nat} {server : Remote} {x : Action Operation} {b : Agent}
    (h : b.Enters born now (Agent.roundOf x now server b)) {i : Nat}
    (hi : (Agent.roundOf x now server b).ended = some i) :
    i = min (Agent.roundOf x now server b).finishes (Agent.roundOf x now server b).drop := by
  rcases h with ⟨e, hwaiting, _⟩ | ⟨hrests, hsilent⟩
  · simp [Agent.roundOf, Agent.isWaiting, hwaiting] at hi
  · have hdrop := (Agent.roundOf x now server b).begun_le_drop
    have hbegun : (Agent.roundOf x now server b).begun = now := rfl
    have hfinishes : (Agent.roundOf x now server b).finishes = now := by
      unfold Round.finishes
      rw [hsilent]
      rfl
    have hnow : i = now := by
      simp only [Agent.roundOf, hrests.not_isWaiting] at hi
      exact (Option.some.inj hi).symm
    omega

/-! ## Where the loop is -/

theorem loopDue_of_waiting {a : Agent} {e : Errand} (h : a.loop = .waiting e) (now : Nat) :
    a.loopDue now = some (if e.ending.rings ≤ e.drop.rings then e.ending else e.drop) := by
  unfold Agent.loopDue
  rw [h]

theorem rings_of_serves {e : Errand} {r : Round} (h : e.Serves r) :
    (if e.ending.rings ≤ e.drop.rings then e.ending else e.drop).rings = min r.finishes r.drop := by
  rw [← h.ending, ← h.drop]
  split <;> omega

theorem Rests.later {a : Agent} {born now later : Nat} (h : a.Rests born now) (hle : now ≤ later) :
    a.Rests born later :=
  h.imp id fun ⟨hleft, hold⟩ => ⟨hleft, by omega⟩

variable {s : Settings} {born : Nat} {c : Chronicle}

/-! ## Steps -/

theorem Sound.pass (h : c.Sound s born) {instant : Nat} (hle : c.now ≤ instant)
    (hdue : ∀ timer, c.agent.due c.now = some timer → instant ≤ timer.rings) :
    ({ c with timeline := { c.timeline with now := instant } } : Chronicle).Sound s born := by
  refine ⟨h.fit.later hle, ?_, h.ended, h.runs, h.requests, h.known⟩
  rcases h.place with ⟨hrests, hall⟩ | ⟨e, r, rest, hloop, hrounds, hopen, hserves, hnow, hall⟩
  · exact .inl ⟨hrests.imp (Rests.later · hle) id, hall⟩
  · refine .inr ⟨e, r, rest, hloop, hrounds, hopen, hserves, ?_, hall⟩
    have hwake := loopDue_of_waiting hloop c.now
    obtain ⟨timer, htimer⟩ : ∃ timer, c.agent.due c.now = some timer := by
      unfold Agent.due
      rw [hwake]
      cases c.agent.crew.due c.now with
      | none => exact ⟨_, rfl⟩
      | some other => exact ⟨_, Timer.sooner_some _ _⟩
    have hrings := Agent.rings_le_loopDue htimer hwake
    rw [rings_of_serves hserves] at hrings
    exact Nat.le_trans (hdue timer htimer) hrings

theorem Sound.stop (h : c.Sound s born) :
    ({ c with timeline := { c.timeline with part := c.agent.stop } } : Chronicle).Sound s born := by
  have hin : c.agent.stop.InStep s false :=
    ⟨h.fit.inStep.worker, h.fit.inStep.actions, h.fit.inStep.floor, h.fit.inStep.beating⟩
  refine ⟨⟨hin, h.fit.young, h.fit.counted⟩, ?_, h.ended, h.runs, h.requests, h.known⟩
  rcases h.place with ⟨hrests, hall⟩ | hwaiting
  · exact .inl ⟨hrests.imp id fun hleft => ⟨hleft.1, rfl⟩, hall⟩
  · exact .inr hwaiting

/-- A turn of the workers changes nothing of the loop, and does not come too late for it. -/
theorem Sound.workersTurn (h : c.Sound s born) {timer : Timer}
    (hdue : c.agent.due c.now = some timer) {t : Timeline Agent} (hnow : t.now = max c.now timer.rings)
    (hpart : ∃ crew, t.part = { c.agent with crew }) (hin : t.part.InStep s false) :
    ({ c with timeline := t } : Chronicle).Sound s born := by
  have hle : c.now ≤ t.now := by omega
  obtain ⟨crew, hpart⟩ := hpart
  have hfit : ({ c with timeline := t } : Chronicle).agent.Fit s born t.now := by
    refine ⟨hin, ?_, ?_⟩
    · show t.part.agenda.Young born
      rw [hpart]
      exact h.fit.young
    · show t.part.agenda.counted ≤ t.now
      rw [hpart]
      exact Nat.le_trans h.fit.counted hle
  refine ⟨hfit, ?_, h.ended, ?_, h.requests, ?_⟩
  · rcases h.place with ⟨hrests, hall⟩ | ⟨e, r, rest, hloop, hrounds, hopen, hserves, hsoon, hall⟩
    · refine .inl ⟨?_, hall⟩
      show t.part.Rests born t.now ∨ t.part.loop = .left none ∧ t.part.stopping = true
      rw [hpart]
      exact hrests.imp (Rests.later · hle) id
    · refine .inr ⟨e, r, rest, ?_, hrounds, hopen, hserves, ?_, hall⟩
      · show t.part.loop = .waiting e
        rw [hpart]
        exact hloop
      · have hrings := Agent.rings_le_loopDue hdue (loopDue_of_waiting hloop c.now)
        rw [rings_of_serves hserves] at hrings
        show t.now ≤ _
        omega
  · show ∀ name, t.part.agenda.runsOf name = _
    rw [hpart]
    exact h.runs
  · show t.part.known = _
    rw [hpart]
    exact h.known

theorem Sound.ended_of_not_isWaiting (h : c.Sound s born) (hidle : c.agent.isWaiting = false) :
    ∀ r ∈ c.rounds, r.ended ≠ none := by
  rcases h.place with ⟨_, hall⟩ | ⟨e, _, _, hloop, _⟩
  · exact hall
  · simp [Agent.isWaiting, hloop] at hidle

theorem Sound.idles (h : c.Sound s born) (hidle : c.agent.isWaiting = false)
    {t : Timeline Agent} {server : Remote} (hfired : c.agent.fired? t.now = none)
    (hw : c.agent.Wakes s born t.now t.part server t.world.asked) :
    (c.record t server).Sound s born := by
  have hrounds : (c.record t server).rounds = c.rounds := by
    simp [record, hfired, hidle]
  have hruns := hw.runs
  have hrequests := hw.requests
  rw [hfired] at hruns hrequests
  refine ⟨hw.fit, .inl ⟨hw.idle hfired, ?_⟩, ?_, ?_, ?_, ?_⟩
  all_goals rw [hrounds]
  · exact h.ended_of_not_isWaiting hidle
  · exact h.ended
  · exact fun name => (hruns name).trans (h.runs name)
  · rw [← h.requests]
    show (t.world.asked ++ c.wire).map _ = _
    rw [List.map_append, hrequests]
    rfl
  · exact hw.known.trans h.known

theorem Sound.fires (h : c.Sound s born) (hidle : c.agent.isWaiting = false)
    {t : Timeline Agent} {server : Remote} {x : Action Operation}
    (hfired : c.agent.fired? t.now = some x)
    (hw : c.agent.Wakes s born t.now t.part server t.world.asked) :
    (c.record t server).Sound s born := by
  have henters := hw.busy x hfired
  have hall := h.ended_of_not_isWaiting hidle
  have hrounds : (c.record t server).rounds =
      Agent.roundOf x t.now server t.part :: c.rounds := by
    simp [record, hfired]
  have hruns := hw.runs
  have hrequests := hw.requests
  rw [hfired] at hruns hrequests
  refine ⟨hw.fit, ?_, ?_, ?_, ?_, ?_⟩
  all_goals rw [hrounds]
  · rcases henters with ⟨e, hwaiting, hserves⟩ | ⟨hrests, _⟩
    · have hopen : (Agent.roundOf x t.now server t.part).ended = none := by
        simp [Agent.roundOf, Agent.isWaiting, hwaiting]
      exact .inr ⟨e, _, _, hwaiting, rfl, hopen, hserves,
        (Agent.roundOf x t.now server t.part).begun_le_min, hall⟩
    · refine .inl ⟨.inl hrests, ?_⟩
      intro r hr
      rcases List.mem_cons.mp hr with rfl | hr
      · simp [Agent.roundOf, hrests.not_isWaiting]
      · exact hall r hr
  · intro r hr i hi
    rcases List.mem_cons.mp hr with rfl | hr
    · exact ended_of_enters henters hi
    · exact h.ended r hr i hi
  · intro name
    have hname : (Agent.roundOf x t.now server t.part).action.name = x.name := rfl
    refine (hruns name).trans ?_
    rw [h.runs name, List.filter_cons, hname]
    by_cases hsame : x.name = name <;> simp [hsame]
  · show (t.world.asked ++ c.wire).map _ = _
    rw [List.map_append, hrequests, h.requests, Option.bind_some, List.filterMap_cons]
    cases (Agent.roundOf x t.now server t.part).request? <;> rfl
  · rw [List.foldr_cons, after_of_enters henters]
    exact hw.known.trans h.known

theorem Sound.ends (h : c.Sound s born) {e : Errand} {r : Round} {rest : List Round}
    (hloop : c.agent.loop = .waiting e) (hrounds : c.rounds = r :: rest) (hserves : e.Serves r)
    (hopen : r.ended = none) (hall : ∀ r ∈ rest, r.ended ≠ none) {t : Timeline Agent} {w : World}
    {server : Remote} (hw : w.server = .remote { server with received := [] })
    (hle : c.now ≤ t.now) (htime : t.now = min r.finishes r.drop)
    (hpart : t.part = (c.agent.endCycle e t.now w).1)
    (hworld : t.world = (c.agent.endCycle e t.now w).2) : (c.record t server).Sound s born := by
  have hfit := h.fit.later hle
  obtain ⟨hended, hrests, hknown, _, hruns, hasked⟩ := hfit.endCycle hserves w
  rw [← hpart] at hended hrests hknown hruns
  rw [← hworld] at hasked
  have hsilent : t.world.asked = [] := by
    rw [hasked]
    unfold World.asked
    rw [hw]
  have hrecorded : (c.record t server).rounds = { r with ended := some t.now } :: rest := by
    simp [record, Agent.fired?, Agent.isWaiting, hloop, hrounds, endFirst]
  have hbefore := h.ended
  have hcounted := h.runs
  have hrequests := h.requests
  have hlearnt := h.known
  rw [hrounds] at hbefore hcounted hrequests hlearnt
  refine ⟨hended, .inl ⟨.inl hrests, ?_⟩, ?_, ?_, ?_, ?_⟩
  all_goals rw [hrecorded]
  · intro x hx
    rcases List.mem_cons.mp hx with rfl | hx
    · exact Option.some_ne_none _
    · exact hall x hx
  · intro x hx i hi
    rcases List.mem_cons.mp hx with rfl | hx
    · cases hi
      exact htime
    · exact hbefore x (List.mem_cons_of_mem _ hx) i hi
  · intro name
    refine (hruns name).trans ?_
    rw [hcounted name]
    by_cases hsame : r.action.name = name <;> simp [hsame]
  · show (t.world.asked ++ c.wire).map _ = _
    rw [hsilent]
    exact hrequests
  · rw [List.foldr_cons, after_of_open hopen] at hlearnt
    refine hknown.trans ?_
    rw [List.foldr_cons, hlearnt]
    rfl

theorem Sound.turn (h : c.Sound s born) {timer : Timer} (hdue : c.agent.due c.now = some timer)
    (w : World) (server : Remote) : (c.turn timer w server).Sound s born := by
  let surroundings : World := { w with server := .remote { server with received := [] } }
  let t := (c.timeline.amend fun _ => surroundings).take timer.rings
  let counted : World := { surroundings with turns := surroundings.turns + 1 }
  have hnow : t.now = max c.now timer.rings := rfl
  have hpart : t.part = (c.agent.turn t.now counted).1 := rfl
  have hworld : t.world = (c.agent.turn t.now counted).2 := rfl
  have hin : t.part.InStep s false := h.fit.inStep.turn t.now counted
  have hserver : counted.server = .remote { server with received := [] } := rfl
  have hle : c.now ≤ t.now := by omega
  have hturn : c.turn timer w server =
      if Timer.isFirst (c.agent.loopDue t.now) (c.agent.crew.due t.now) then c.record t server
      else { c with timeline := t } := rfl
  rw [hturn]
  unfold Agent.turn at hpart hworld
  by_cases hfirst : Timer.isFirst (c.agent.loopDue t.now) (c.agent.crew.due t.now) = true
  · rw [if_pos hfirst] at hpart hworld ⊢
    have hleft : ∀ fault, c.agent.loop ≠ .left fault := by
      intro fault hleft
      unfold Agent.loopDue at hfirst
      rw [hleft] at hfirst
      cases hfirst
    rcases h.place with ⟨hrests, hall⟩ | ⟨e, r, rest, hloop, hrounds, hopen, hserves, hsoon, hall⟩
    · rcases hrests with (⟨wake, hloop⟩ | ⟨hloop, _⟩) | ⟨hloop, _⟩
      · have hwakes := (h.fit.later hle).wakes hloop hserver
        rw [← hpart, ← hworld] at hwakes
        have hidle : c.agent.isWaiting = false := by
          simp [Agent.isWaiting, hloop]
        cases hfired : c.agent.fired? t.now with
        | none => exact h.idles hidle hfired hwakes
        | some x => exact h.fires hidle hfired hwakes
      · exact absurd hloop (hleft _)
      · exact absurd hloop (hleft _)
    · have hloopTurn : c.agent.loopTurn t.now counted = c.agent.endCycle e t.now counted := by
        unfold Agent.loopTurn
        rw [hloop]
      -- Whoever else is due takes a turn before, so that the loop's comes on time.
      have hrings := rings_of_serves hserves
      have htime := Agent.turn_on_time (loopDue_of_waiting hloop) (hrings ▸ hsoon) hdue hfirst
      rw [hloopTurn] at hpart hworld
      exact h.ends hloop hrounds hserves hopen hall hserver hle (htime.trans hrings) hpart hworld
  · rw [if_neg hfirst] at hpart ⊢
    exact h.workersTurn hdue hnow ⟨_, hpart⟩ hin

theorem Sound.step (h : c.Sound s born) (e : Event) {d : Chronicle} (hstep : c.step? e = some d) :
    d.Sound s born := by
  cases e with
  | pass instant =>
      dsimp only [step?] at hstep
      split at hstep
      case isTrue hpass =>
          cases hstep
          refine h.pass hpass.1 ?_
          intro timer htimer
          have hall := hpass.2
          rw [htimer] at hall
          simpa using hall
      case isFalse => cases hstep
  | stop =>
      cases hstep
      exact h.stop
  | turn w server =>
      obtain ⟨timer, htimer, rfl⟩ := Option.map_eq_some_iff.mp hstep
      exact h.turn htimer w server

/-! ## Before the loop -/

/-- The loop was never started, and the agenda is as it was made, apart from periods. -/
structure Unstarted (born : Nat) (a : Agent) : Prop where
  loop : a.loop = .absent
  young : a.agenda.Young born
  counted : a.agenda.counted ≤ born
  runs : ∀ name, a.agenda.runsOf name = 0

theorem unstarted_calm (born : Nat) : Agent.Calm (Unstarted born) := by
  refine ⟨fun _ h => ⟨h.loop, h.young, h.counted, h.runs⟩, ?_⟩
  intro a p r w h
  have hagenda := Agent.accept_agenda (a := a)
    (P := fun g => g.Young born ∧ g.counted ≤ born ∧ ∀ name, g.runsOf name = 0)
    (fun g key period hg => ⟨hg.1.editPeriod key period, hg.2.1, fun name =>
      (g.runsOf_editPeriod key period name).trans (hg.2.2 name)⟩)
    ⟨h.young, h.counted, h.runs⟩ p r w
  obtain ⟨hyoung, hcounted, hruns⟩ := hagenda
  exact ⟨(Agent.accept_spec a p r w).2.trans h.loop, hyoung, hcounted, hruns⟩

theorem agendaOf_young (telemetryPeriod heartbeatPeriod born : Nat) :
    (Agent.agendaOf telemetryPeriod heartbeatPeriod born).Young born := by
  have hremaining : ∀ x ∈ (Agent.agendaOf telemetryPeriod heartbeatPeriod born).actions,
      ∃ d, x.remaining = Action.countdown d := by
    simp only [Agent.agendaOf, Agenda.new, Agent.repeated, Action.after, List.mem_cons,
      List.not_mem_nil, or_false]
    rintro x (rfl | rfl | rfl) <;> exact ⟨_, rfl⟩
  refine ⟨List.cons_ne_nil _ _, Nat.le_refl _, ?_, ?_⟩
  · intro x hx
    obtain ⟨d, hd⟩ := hremaining x hx
    have hnonneg := Action.countdown_nonneg d
    show (born : Int) - born ≤ x.remaining
    omega
  · intro x hx
    obtain ⟨d, hd⟩ := hremaining x hx
    rw [hd]
    exact Action.countdown_le d

theorem agendaOf_runs (telemetryPeriod heartbeatPeriod born : Nat) (name : String) :
    (Agent.agendaOf telemetryPeriod heartbeatPeriod born).runsOf name = 0 := by
  have hruns : ∀ x ∈ (Agent.agendaOf telemetryPeriod heartbeatPeriod born).actions, x.runs = 0 := by
    simp [Agent.agendaOf, Agenda.new, Agent.repeated, Action.after, Action.new]
  unfold Agenda.runsOf
  rw [List.sum_eq_zero_iff_forall_eq_nat]
  intro n hn
  obtain ⟨x, hx, rfl⟩ := List.mem_map.mp hn
  exact hruns x (List.mem_filter.mp hx).1

theorem Ready.standing {t : Timeline Agent} (h : Ready s born t) :
    Agent.Standing s (Unstarted born) born false t := by
  have hnew : ∀ {part : Agent} (w world : World) (patience : Nat),
      (Agent.new s born w).1 = .ok part →
      Agent.Standing s (Unstarted born) born false { part, world, now := born, patience } ∧
        ∀ u, part.crew.workers.find? Agent.telemetryWorker = some u → u.claims = [] := by
    intro part w world patience hok
    obtain ⟨⟨hin, hfree⟩, crew, rfl⟩ := Agent.new_spec hok
    have hyoung := agendaOf_young s.telemetryPeriod s.heartbeatPeriod born
    have hruns := agendaOf_runs s.telemetryPeriod s.heartbeatPeriod born
    exact ⟨⟨hin, rfl, ⟨rfl, hyoung, Nat.le_refl _, hruns⟩, Nat.le_refl _⟩, hfree⟩
  induction h with
  | new w world patience hok => exact (hnew w world patience hok).1
  | startup w world patience hok =>
      obtain ⟨hstands, hfree⟩ := hnew w world patience hok
      exact hstands.awaitStartup (unstarted_calm born) hfree
  | pause span _ ih => exact ih.awaitAtMost (unstarted_calm born) (fun _ => false) span

theorem Ready.sound {t : Timeline Agent} (h : Ready s born t) : (begin t).Sound s born := by
  have hstands := h.standing
  have hfact := hstands.fact
  have hborn := hstands.born_le
  have hstarted : ({ t.part with crew := t.part.crew.start t.now } : Agent).Fit s born t.now :=
    ⟨hstands.inStep.startCrew t.now, hfact.young, Nat.le_trans hfact.counted hborn⟩
  obtain ⟨hfit, hrests, hkeeps⟩ := hstarted.rest t.count.world
  refine ⟨hfit, .inl ⟨.inl hrests, nofun⟩, nofun, ?_, rfl, hkeeps.known⟩
  exact fun name => (hkeeps.runs name).trans (hfact.runs name)

theorem Reachable.sound (h : Reachable s born c) : c.Sound s born := by
  induction h with
  | begin hready => exact hready.sound
  | step e _ hstep ih => exact ih.step e hstep

end Chronicle
end EdgeAgent
