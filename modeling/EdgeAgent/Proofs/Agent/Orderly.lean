import EdgeAgent.Proofs.Agent.Chronicle

/-! # Operations in time

At most one operation of an agent is in flight. It is over as soon as it finishes or is
to be given up, and only what finishes first is learnt. The loop goes on until it is
asked to end, as long as the time since the agent was made can be counted.
-/

namespace EdgeAgent

/-! ## Rounds in time -/

theorem Instant.tick_mod (deadline : Nat) : tick deadline % 1000000 = 0 := Nat.mul_mod_left _ _

theorem Instant.tick_of_mod {deadline : Nat} (h : deadline % 1000000 = 0) :
    tick deadline = deadline := by
  unfold tick
  omega

theorem Instant.tick_add {a b : Nat} (ha : tick a = a) (hb : tick b = b) :
    tick (a + b) = a + b := by
  have hamod := tick_mod a
  have hbmod := tick_mod b
  rw [ha] at hamod
  rw [hb] at hbmod
  exact tick_of_mod (by omega)

theorem Round.drop_bounds (r : Round)
    (h : r.begun + 2 * r.action.period + Duration.ofMillis 1 ≤ Instant.endOfTime) :
    r.begun + 2 * r.action.period ≤ r.drop ∧
      r.drop < r.begun + 2 * r.action.period + Duration.ofMillis 2 ∧
      (Instant.tick r.begun = r.begun → Instant.tick r.action.period = r.action.period →
        r.drop = r.begun + 2 * r.action.period) := by
  have hmilli : Duration.ofMillis 1 = 1000000 := by decide
  have hmillis : Duration.ofMillis 2 = 2000000 := by decide
  -- Each of the two waits lasts to the first tick at which its period is over.
  have hfirst : Instant.endOfWait r.begun r.action.period =
      Instant.tick (r.begun + r.action.period) := by
    rw [Instant.endOfWait, Instant.wait_of_lt (by omega)]
  have hle := Instant.le_tick (r.begun + r.action.period)
  have hlt := Instant.tick_lt (r.begun + r.action.period)
  have hsecond : r.drop =
      Instant.tick (Instant.tick (r.begun + r.action.period) + r.action.period) := by
    rw [Round.drop, hfirst, Instant.endOfWait, Instant.wait_of_lt (by omega)]
  have hle' := Instant.le_tick (Instant.tick (r.begun + r.action.period) + r.action.period)
  have hlt' := Instant.tick_lt (Instant.tick (r.begun + r.action.period) + r.action.period)
  rw [hsecond]
  refine ⟨by omega, by omega, ?_⟩
  intro hbegun hperiod
  have hone := Instant.tick_add hbegun hperiod
  rw [hone, Instant.tick_add hone hperiod]
  omega

namespace Chronicle

/-- What holds of every chronicle. -/
structure Orderly (born : Nat) (c : Chronicle) : Prop where
  /-- The loop goes on until it was asked to end, unless a countdown cannot be told. -/
  left : c.agent.loop ≠ .absent ∧ ∀ fault, c.agent.loop = .left fault →
    fault = none ∧ c.agent.stopping = true ∨
      fault = some .outOfRange ∧ Action.maxCountdown < c.now - born
  /-- Only the operation of the last round can be in flight, while the loop waits for it. -/
  single : (∀ r ∈ c.rounds.drop 1, r.ended ≠ none) ∧
    c.agent.isWaiting = c.rounds.head?.any (·.ended.isNone)
  /-- Every run of an action has its round, with one request if it asks for anything. -/
  once : (∀ name, c.agent.agenda.runsOf name =
      (c.rounds.filter fun r => r.action.name = name).length) ∧
    c.wire.map (fun m => (m.1, m.2.operation)) = c.rounds.filterMap Round.request?
  /-- An operation is over when it finishes, or is given up before. -/
  ended : ∀ r ∈ c.rounds, (r.ended = none → c.now ≤ min r.finishes r.drop) ∧
    ∀ i, r.ended = some i → i = min r.finishes r.drop
  /-- It is given up when it was waited for twice as long as a period, to the next tick. -/
  drop : ∀ r ∈ c.rounds,
    r.begun + 2 * r.action.period + Duration.ofMillis 1 ≤ Instant.endOfTime →
      (r.finishes < r.begun + 2 * r.action.period → r.finishes ≤ r.drop) ∧
      (r.begun + 2 * r.action.period ≤ r.drop ∧
        r.drop < r.begun + 2 * r.action.period + Duration.ofMillis 2) ∧
      (Instant.tick r.begun = r.begun → Instant.tick r.action.period = r.action.period →
        r.drop = r.begun + 2 * r.action.period)
  /-- The responses that have come in time are applied in their order, and no others. -/
  known : c.agent.known = c.rounds.foldr (fun r k => k.after r) c.initial

variable {s : Settings} {born : Nat} {c : Chronicle}

theorem Sound.left_on_request (h : c.Sound s born) :
    c.agent.loop ≠ .absent ∧ ∀ fault, c.agent.loop = .left fault →
      fault = none ∧ c.agent.stopping = true ∨
        fault = some .outOfRange ∧ Action.maxCountdown < c.now - born := by
  rcases h.place with ⟨hrests | ⟨hloop, hasked⟩, _⟩ | ⟨e, _, _, hloop, _⟩
  · rcases hrests with ⟨wake, hloop⟩ | ⟨hloop, hold⟩
    · simp [hloop]
    · simp [hloop, hold]
  · simp [hloop, hasked]
  · simp [hloop]

theorem Sound.single (h : c.Sound s born) :
    (∀ r ∈ c.rounds.drop 1, r.ended ≠ none) ∧
      c.agent.isWaiting = c.rounds.head?.any (·.ended.isNone) := by
  rcases h.place with ⟨hrests, hall⟩ | ⟨e, r, rest, hloop, hrounds, hopen, _, _, hall⟩
  · have hidle : c.agent.isWaiting = false := by
      rcases hrests with hrests | ⟨hloop, _⟩
      · exact hrests.not_isWaiting
      · simp [Agent.isWaiting, hloop]
    refine ⟨fun r hr => hall r (List.mem_of_mem_drop hr), ?_⟩
    rw [hidle]
    cases hrounds : c.rounds with
    | nil => rfl
    | cons r rest =>
        have hended := hall r (hrounds ▸ List.mem_cons_self)
        simp [Option.isNone_eq_false_iff, Option.isSome_iff_ne_none, hended]
  · rw [hrounds]
    refine ⟨hall, ?_⟩
    simp [Agent.isWaiting, hloop, hopen]

theorem Sound.soon (h : c.Sound s born) {r : Round} (hr : r ∈ c.rounds) (hopen : r.ended = none) :
    c.now ≤ min r.finishes r.drop := by
  rcases h.place with ⟨_, hall⟩ | ⟨e, first, rest, _, hrounds, _, _, hsoon, hall⟩
  · exact absurd hopen (hall r hr)
  · rw [hrounds] at hr
    rcases List.mem_cons.mp hr with rfl | hr
    · exact hsoon
    · exact absurd hopen (hall r hr)

/-- However the server answers, the loop is left only when it was asked to, and has one
operation in flight at most. Every run of an action is one operation, which is over when
it finishes or after two periods, whichever is sooner. The response is applied once in
the former case and never in the latter, and nothing else changes what is known. -/
theorem Reachable.rounds_in_order (h : Reachable s born c) : c.Orderly born := by
  have hsound := h.sound
  refine ⟨hsound.left_on_request, hsound.single, ⟨hsound.runs, hsound.requests⟩, ?_, ?_,
    hsound.known⟩
  · exact fun r hr => ⟨hsound.soon hr, hsound.ended r hr⟩
  · intro r _ htold
    obtain ⟨hlow, hhigh, hwhole⟩ := r.drop_bounds htold
    exact ⟨fun hfinishes => by omega, ⟨hlow, hhigh⟩, hwhole⟩

/-! ## Runs -/

instance (l : AgentLoop) (fault : Option Agenda.Fault) : Decidable (l = .left fault) :=
  match l with
  | .left f => decidable_of_iff (f = fault) (by rw [AgentLoop.left.injEq])
  | .absent | .asleep _ | .waiting _ => isFalse nofun

def run (c : Chronicle) : List Event → Option Chronicle
  | [] => some c
  | e :: rest => (c.step? e).bind (·.run rest)

theorem Reachable.run (h : Reachable s born c) {events : List Event} {d : Chronicle}
    (hrun : c.run events = some d) : Reachable s born d := by
  induction events generalizing c with
  | nil =>
      cases hrun
      exact h
  | cons e rest ih =>
      obtain ⟨next, hstep, hrest⟩ := Option.bind_eq_some_iff.mp hrun
      exact ih (h.step e hstep) hrest

/-- An agent without monitors. -/
def plain (telemetryPeriod heartbeatPeriod : Nat) : Settings where
  excluded := some ("coe_resources,container_stats,network,nuvlaedge_info,power,resources," ++
    "temperature,vulnerabilities")
  telemetryPeriod
  heartbeatPeriod

/-- What has come of a new agent after turns in which it met these servers. -/
def afterTurns (s : Settings) (servers : List Remote) : Option Chronicle :=
  match (Agent.new s 0 {}).1 with
  | .ok part => (begin { part, world := {} }).run (servers.map (.turn {}))
  | .error _ => none

theorem exists_reachable {P : Chronicle → Prop} [DecidablePred P] (servers : List Remote)
    (h : (afterTurns s servers).any (fun c => P c) = true) : ∃ c, Reachable s 0 c ∧ P c := by
  obtain ⟨c, hc, hP⟩ := (Option.any_eq_true _ _).mp h
  refine ⟨c, ?_, of_decide_eq_true hP⟩
  unfold afterTurns at hc
  split at hc
  case h_1 part hnew => exact (Reachable.begin (.new {} {} _ hnew)).run hc
  case h_2 => cases hc

def giving (interval : String) (seconds delay : Nat) : Plan Answer :=
  ⟨[{ delay, verdict := .respond (.obj [(interval, .int seconds)]) }]⟩

def silence (delay : Nat) : Plan Answer := ⟨[{ delay }]⟩

/-- A heartbeat that is sent every 20 seconds is answered after 45. It was given up before,
and nothing is learnt from it. -/
theorem rounds_in_order_late :
    ∃ c, Reachable (plain (Duration.ofSeconds 60) (Duration.ofSeconds 20)) 0 c ∧ c.Orderly 0 ∧
      c.agent.heartbeatPeriod = Duration.ofSeconds 20 ∧
      ∃ r ∈ c.rounds, r.response?.isSome = true ∧ r.finishes = r.begun + Duration.ofSeconds 45 ∧
        r.ended = some (r.begun + Duration.ofSeconds 40) := by
  have hrun : ∃ c, Reachable (plain (Duration.ofSeconds 60) (Duration.ofSeconds 20)) 0 c ∧
      c.agent.heartbeatPeriod = Duration.ofSeconds 20 ∧
      ∃ r ∈ c.rounds, r.response?.isSome = true ∧ r.finishes = r.begun + Duration.ofSeconds 45 ∧
        r.ended = some (r.begun + Duration.ofSeconds 40) := by
    let server : Remote := { heartbeat := giving "heartbeat-interval" 25 (Duration.ofSeconds 45) }
    exact exists_reachable (List.replicate 8 server) (by decide +kernel)
  obtain ⟨c, hc, hlate⟩ := hrun
  exact ⟨c, hc, hc.rounds_in_order, hlate⟩

/-- An operation is not always given up after exactly two periods, since a wait ends with a
whole millisecond. Nor is the loop left on request only: more time than a countdown can hold
may pass. -/
theorem not_always_two_periods :
    (∃ c, Reachable (plain (Duration.ofSeconds 60) 1500000) 0 c ∧
      c.agent.heartbeatPeriod = Duration.ofSeconds 25 ∧
      ∃ r ∈ c.rounds, r.begun + 2 * r.action.period < r.finishes ∧ r.ended = some r.finishes) ∧
    ∃ c, Reachable (plain (Duration.ofSeconds 1) (Duration.ofSeconds 1)) 0 c ∧
      c.agent.loop = .left (some .outOfRange) ∧ c.agent.stopping = false := by
  refine ⟨?uneven, ?long⟩
  case uneven =>
    let server : Remote := { heartbeat := giving "heartbeat-interval" 25 (Duration.ofMillis 4) }
    exact exists_reachable (List.replicate 4 server) (by decide +kernel)
  case long =>
    -- The heartbeat asks for very rare reports, and the first of them takes very long. The
    -- commissioner waits as well, or there would be more turns than one can follow.
    let server : Remote :=
      { heartbeat := giving "refresh-interval" (10 ^ 16) (Duration.ofMillis 1500)
        telemetry := silence (Duration.ofSeconds 9300000000000000)
        commission := silence (Duration.ofSeconds (10 ^ 16)) }
    exact exists_reachable (List.replicate 13 server) (by decide +kernel)

end Chronicle
end EdgeAgent
