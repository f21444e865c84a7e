import EdgeAgent.Proofs.Monitor.Cadence
import EdgeAgent.Proofs.Monitor.Leftovers

/-! # Stations that are on time

A station takes its turns when they are due. So the passes of its loop do not only begin at
their deadlines if they begin: the time does not go on before they do.
-/

namespace EdgeAgent.Station.Diary

variable {μ : Type} [Monitor μ]

/-- The loop of a station that was set up at an instant keeps its cadence. -/
structure Punctual (made : Nat) (d : Diary μ) : Prop where
  events : InCadence made d.events
  /-- The first turn of the loop is due at the instant at which it was started. -/
  starts : ∀ instant, d.station.loop = .spawned instant → d.station.stopping = false →
    instant = d.now ∧ d.events.head? = some (.started instant) ∧
      ∃ timer, d.station.due d.now = some timer ∧ timer.rings ≤ d.now
  /-- In that turn it looks at the period, and goes to sleep. -/
  looks : ∀ instant, d.station.loop = .spawned instant → d.station.stopping = false →
    ∀ e, Step d e →
      e.station.loop = .spawned instant ∧ (e.events = d.events ∨ e = d.stopped) ∨
        e.events = .looked d.now d.station.period :: d.events ∧
          ∃ wake, e.station.loop = .asleep wake
  /-- A loop that sleeps waits for its deadline. -/
  waits : ∀ wake, d.station.loop = .asleep wake → d.station.stopping = false →
    ∃ deadline, deadline? made d.events = some deadline ∧ d.now ≤ wake.rings ∧
      (deadline < Instant.endOfTime → wake.rings = Instant.tick deadline)
  /-- The time does not pass the end of the wait before the loop begins a pass, which then
  does not wait if nobody visits the fragment. -/
  wakes : ∀ wake, d.station.loop = .asleep wake → d.station.stopping = false →
    (∃ timer, d.station.due d.now = some timer ∧ timer.rings ≤ wake.rings) ∧
      ∀ e, Step d e →
        e.station.loop = .asleep wake ∧ (e.events = d.events ∨ e = d.stopped) ∨
          d.now = wake.rings ∧ (d.station.waiting = [] → e.station.waiting = []) ∧
            (e.events = .begun d.now :: d.events ∧ e.station.loop = .passing ∨
              e.events = .ended d.now d.station.period :: .begun d.now :: d.events)
  /-- The loop is in the pass that began last. -/
  passes : d.station.loop = .passing → goingOn? d.events = some d.station.lastUpdate
  /-- A pass that fails publishes nothing, and the loop goes on as after any other. -/
  fails : ∀ p w, ∃ v, Ends d.station p d.now w v (d.station.finish p d.now w).1
      (d.station.finish p d.now w).2 ∧
    (v ≠ .crashed → (d.station.finish p d.now w).1.loop =
      d.station.resumption p.runner d.now (d.station.finish p d.now w).2.rank) ∧
    (v = .failed ∨ (∃ m, v = .brokenOff m) →
      (d.station.finish p d.now w).1.slot = d.station.slot)
  /-- After the loop was asked to end no pass begins until it is started again. -/
  stops : ∀ later instant es, d.events = later ++ .stopped instant :: es →
    (∀ e ∈ later, e.isStarted = false) → ∀ e ∈ later, e.isBegun = false

variable {made : Nat} {d e : Diary μ}

theorem Step.kept (hstep : Step d e) (h : Kept made d.now d.station d.events) :
    Kept made e.now e.station e.events := by
  cases hstep with
  | pass instant hle hbound =>
      refine h.later hle fun wake hwake => ?_
      obtain ⟨timer, hdue, hrings⟩ := exists_due hwake
      exact Nat.le_trans (hbound timer hdue) hrings
  | turn timer w hdue hrings =>
      obtain ⟨v, hturn⟩ := turn_turn d.station d.now w
      refine h.turn hturn fun hfirst wake hwake => ?_
      rw [due_of_first hfirst, hwake] at hdue
      cases hdue
      exact hrings
  | ask w hdead => exact h.ask hdead w
  | start hawaited => exact h.start hawaited
  | stop => exact h.stop
  | aside haside => exact h.congr haside.spared

theorem Reachable.kept (h : Reachable made d) : Kept made d.now d.station d.events := by
  induction h with
  | setUp m period =>
      have hnobody : ∀ r ∈ (Station.new m period made).runners, r = .outside := by
        intro r hr
        cases hr
      exact .of_dead rfl .nothing (by simp) rfl (Nat.le_refl made) hnobody rfl
  | step _ hstep ih => exact hstep.kept ih

theorem Step.rests_or_turns (hstep : Step d e) (h : Kept made d.now d.station d.events)
    (hwaits : (∃ instant, d.station.loop = .spawned instant) ∨
      ∃ wake, d.station.loop = .asleep wake) :
    e.station.loop = d.station.loop ∧ (e.events = d.events ∨ e = d.stopped) ∨
      ∃ w, e = d.turned w ∧ d.station.loopIsFirst d.now = true ∧
        ∀ wake, d.station.loopDue d.now = some wake → wake.rings ≤ d.now := by
  have halive : d.station.isRunning = true := by
    rcases hwaits with ⟨_, hloop⟩ | ⟨_, hloop⟩ <;> simp [isRunning, hloop]
  cases hstep with
  | pass => exact .inl ⟨rfl, .inl rfl⟩
  | ask w hdead => simp [halive] at hdead
  | start => simp [started, Station.start, halive]
  | stop => exact .inl ⟨rfl, .inr rfl⟩
  | aside haside => exact .inl ⟨haside.spared.loop, .inl rfl⟩
  | turn timer w hdue hrings =>
      cases hfirst : d.station.loopIsFirst d.now with
      | true =>
          refine .inr ⟨w, rfl, rfl, fun wake hwake => ?_⟩
          rw [due_of_first hfirst, hwake] at hdue
          cases hdue
          exact hrings
      | false =>
          have hnobody : d.station.runners = [] := by
            have hordered := h.ordered
            unfold Ordered at hordered
            rcases hwaits with ⟨_, hloop⟩ | ⟨_, hloop⟩
            · rwa [hloop] at hordered
            · rwa [hloop] at hordered
          obtain ⟨v, hserved⟩ := passTurn_served d.station d.now w
          rw [← turn_of_not_first hfirst] at hserved
          have hsame := hserved.eq_of_nobody hnobody
          have hevents : (d.turned w).events = d.events := by
            simp [turned, hfirst, hsame, h.matching.noteEnd_eq]
          exact .inl ⟨congrArg Station.loop hsame, .inl hevents⟩

theorem Reachable.starts (h : Reachable made d) {instant : Nat}
    (hloop : d.station.loop = .spawned instant) (hgoes : d.station.stopping = false) :
    instant = d.now ∧ d.events.head? = some (.started instant) ∧
      ∃ timer, d.station.due d.now = some timer ∧ timer.rings ≤ d.now := by
  have hmatches := h.kept.matching
  simp only [Matches, hloop] at hmatches
  obtain ⟨-, rfl, hstarted⟩ := hmatches
  have hdue : d.station.loopDue d.now = some (.woken d.now) := by simp [loopDue, hloop]
  exact ⟨rfl, hstarted hgoes, exists_due hdue⟩

theorem Reachable.looks (h : Reachable made d) {instant : Nat}
    (hloop : d.station.loop = .spawned instant) (hgoes : d.station.stopping = false)
    (hstep : Step d e) :
    e.station.loop = .spawned instant ∧ (e.events = d.events ∨ e = d.stopped) ∨
      e.events = .looked d.now d.station.period :: d.events ∧
        ∃ wake, e.station.loop = .asleep wake := by
  rcases hstep.rests_or_turns h.kept (.inl ⟨_, hloop⟩) with ⟨hsame, hevents⟩ | ⟨w, rfl, hfirst, _⟩
  · exact .inl ⟨hsame.trans hloop, hevents⟩
  · have hturn : (d.turned w).station.loop =
        .asleep (.after d.now (d.station.period / 2 - (d.now - d.station.lastUpdate)) w.rank) := by
      simp [turned, turn_of_first hfirst, loopTurn, hgoes, hloop]
    refine .inr ⟨?_, _, hturn⟩
    simp [turned, hfirst, noteLoop, hgoes, hloop, noteEnd, goingOn?]

theorem Reachable.waits (h : Reachable made d) {wake : Timer}
    (hloop : d.station.loop = .asleep wake) (hgoes : d.station.stopping = false) :
    ∃ deadline, deadline? made d.events = some deadline ∧ d.now ≤ wake.rings ∧
      (deadline < Instant.endOfTime → wake.rings = Instant.tick deadline) := by
  have hmatches := h.kept.matching
  simp only [Matches, hloop] at hmatches
  exact hmatches.2 hgoes

theorem Reachable.wakes (h : Reachable made d) {wake : Timer}
    (hloop : d.station.loop = .asleep wake) (hgoes : d.station.stopping = false)
    (hstep : Step d e) :
    e.station.loop = .asleep wake ∧ (e.events = d.events ∨ e = d.stopped) ∨
      d.now = wake.rings ∧ (d.station.waiting = [] → e.station.waiting = []) ∧
        (e.events = .begun d.now :: d.events ∧ e.station.loop = .passing ∨
          e.events = .ended d.now d.station.period :: .begun d.now :: d.events) := by
  rcases hstep.rests_or_turns h.kept (.inr ⟨_, hloop⟩) with
    ⟨hsame, hevents⟩ | ⟨w, rfl, hfirst, hrings⟩
  · exact .inl ⟨hsame.trans hloop, hevents⟩
  · have hdue : d.station.loopDue d.now = some wake := by simp [loopDue, hloop, hgoes]
    have hnow := (h.kept.wake hloop hgoes (hrings wake hdue)).1
    have hturn : (d.turned w).station =
        (({ d.station with loop := .passing } : Station μ).request .loop d.now w).1 := by
      simp [turned, turn_of_first hfirst, loopTurn, hgoes, hloop]
    have hevents : (d.turned w).events =
        noteEnd (d.turned w).station d.now d.station.period (.begun d.now :: d.events) := by
      simp [turned, hfirst, noteLoop, hgoes, hloop]
    refine .inr ⟨hnow, fun hnobody => ?_, ?_⟩
    · have hfree := underWay_of_nobody (h.kept.first hfirst).2
      rw [hturn]
      exact request_waiting .loop w hfree hnobody
    · rw [hevents]
      cases hpassing : (d.turned w).station.isPassing with
      | true => exact .inl ⟨by simp [noteEnd, hpassing], loop_of_isPassing hpassing⟩
      | false => exact .inr (by simp [noteEnd, goingOn?, hpassing])

theorem Reachable.passes (h : Reachable made d) (hloop : d.station.loop = .passing) :
    goingOn? d.events = some d.station.lastUpdate := by
  have hmatches := h.kept.matching
  simp only [Matches, hloop] at hmatches
  exact hmatches.1

/-- The passes of a loop keep their cadence, however long they take and however they end, and
whenever the period is changed. -/
theorem Reachable.punctual (h : Reachable made d) : Punctual made d where
  events := h.kept.events
  starts _ hloop hgoes := h.starts hloop hgoes
  looks _ hloop hgoes _ hstep := h.looks hloop hgoes hstep
  waits _ hloop hgoes := h.waits hloop hgoes
  wakes wake hloop hgoes := by
    have hdue : d.station.loopDue d.now = some wake := by simp [loopDue, hloop, hgoes]
    exact ⟨exists_due hdue, fun _ hstep => h.wakes hloop hgoes hstep⟩
  passes := h.passes
  fails p w := by
    obtain ⟨v, hends⟩ := finish_ends d.station p d.now w
    exact ⟨v, hends, hends.loop_eq, hends.slot_of_failed⟩
  stops _ _ _ hevents hnever := (hevents ▸ h.kept.events).begun_stopped hnever

/-! ## A pass that fails -/

def noAnswer : World := planned (.fail "no answer")

def firstWait : Diary SimulatedMonitor where
  station :=
    { Station.new probe (Duration.ofSeconds 60) 0 with
      loop := .asleep (.after 0 (Duration.ofSeconds 30) noAnswer.rank) }
  now := 0
  events := [.looked 0 (Duration.ofSeconds 60), .started 0]

def secondWait : Diary SimulatedMonitor where
  station :=
    { Station.new probe (Duration.ofSeconds 60) 0 with
      lastUpdate := Duration.ofSeconds 30
      lastDuration := some 0
      loop := .asleep (.after (Duration.ofSeconds 30) (Duration.ofSeconds 60) noAnswer.rank) }
  now := Duration.ofSeconds 30
  events := .ended (Duration.ofSeconds 30) (Duration.ofSeconds 60) ::
    .begun (Duration.ofSeconds 30) :: firstWait.events

theorem reachable_secondWait : Reachable 0 secondWait := by
  have hmade : Reachable 0 ⟨.new probe (Duration.ofSeconds 60) 0, 0, []⟩ := .setUp probe _
  have hstarted := hmade.step (.start rfl)
  have hwaiting : Reachable 0 firstWait :=
    hstarted.step (.turn (.woken 0) noAnswer rfl (Nat.le_refl 0))
  exact hwaiting.untilTurn noAnswer rfl (by decide) (by decide) rfl

/-- The first pass comes after half a minute. It fails, and the second one is due a minute
later. -/
theorem punctual_secondWait :
    Reachable 0 secondWait ∧ Punctual 0 secondWait ∧
      deadline? 0 firstWait.events = some (Duration.ofSeconds 30) ∧
      deadline? 0 secondWait.events = some (Duration.ofSeconds 90) :=
  ⟨reachable_secondWait, reachable_secondWait.punctual, by decide, by decide⟩

end EdgeAgent.Station.Diary
