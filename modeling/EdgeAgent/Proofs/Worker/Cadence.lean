import EdgeAgent.Proofs.Worker.Diary

/-! # The cadence of a worker

The first cycle begins one delay after the loop was started. Every other one begins when a
period is over that began with the cycle before, or at the end of that cycle if it took
longer; the period is the one in force at that end, whatever it was before or becomes later.
While the loop waits the worker tells when the next cycle is due. Timers only ring at whole
milliseconds, so a cycle begins at the first of them that does not lie before.
-/

namespace EdgeAgent.Worker

variable {υ π α : Type}

/-! ## Statement -/

/-- When the next cycle is due, by what the loop has done so far, the last first. -/
def deadline? (delay : Nat) : List Event → Option Nat
  | .started instant :: _ => some (instant + delay)
  | .ended instant period :: .begun since :: _ => some (max instant (since + period))
  | _ => none

/-- Cycles one after the other, each of them on time. -/
inductive InCadence (delay : Nat) : List Event → Prop
  | nothing : InCadence delay []
  /-- A loop is started when no cycle goes on. -/
  | started {es : List Event} (instant : Nat) : InCadence delay es →
      (∀ e ∈ es.head?, e.isBegun = false ∧ e.instant ≤ instant) →
        InCadence delay (.started instant :: es)
  | begun {es : List Event} {deadline : Nat} (instant : Nat) : InCadence delay es →
      deadline? delay es = some deadline → (∀ e ∈ es.head?, e.instant ≤ instant) →
        (deadline < Instant.endOfTime → instant = Instant.tick deadline) →
          InCadence delay (.begun instant :: es)
  | ended {es : List Event} {since : Nat} (instant period : Nat) :
      InCadence delay (.begun since :: es) → since ≤ instant →
        InCadence delay (.ended instant period :: .begun since :: es)

/-- The loop of a worker that was made with a period keeps its cadence. -/
structure Diary.Cadence [Craft υ π α] [Timed υ] (period : Nat) (d : Diary υ π α) : Prop where
  delay : d.worker.initialDelay ≤ period
  events : InCadence d.worker.initialDelay d.events
  /-- The first turn of the loop is due at the instant at which it was started. -/
  starts : ∀ instant, d.worker.loop = .spawned instant →
    instant = d.now ∧ d.events.head? = some (.started instant) ∧
      ∃ timer, d.worker.due d.now = some timer ∧ timer.rings ≤ d.now
  /-- In that turn it goes to sleep, unless its deadline cannot be told. -/
  sleeps : ∀ instant, d.worker.loop = .spawned instant → d.worker.stopping = false →
    instant + d.worker.initialDelay < Instant.endOfTime → ∀ e, Step d e →
      e.events = d.events ∧
        (e.worker.loop = .spawned instant ∨ ∃ wake, e.worker.loop = .asleep wake)
  /-- A loop that sleeps waits for its deadline, of which the worker tells. -/
  waits : ∀ wake, d.worker.loop = .asleep wake →
    ∃ deadline, deadline? d.worker.initialDelay d.events = some deadline ∧
      d.worker.nextCycle = some deadline ∧
      (d.worker.summary d.now).remaining = some (deadline - d.now) ∧ d.now ≤ wake.rings ∧
      (deadline < Instant.endOfTime → wake.rings = Instant.tick deadline)
  /-- The time does not pass the end of the wait before the loop begins a cycle. -/
  wakes : ∀ wake, d.worker.loop = .asleep wake → d.worker.stopping = false →
    (∃ timer, d.worker.due d.now = some timer ∧ timer.rings ≤ wake.rings) ∧
      ∀ e, Step d e → e.worker.loop = .asleep wake ∧ e.events = d.events ∨
        d.now = wake.rings ∧ .begun d.now :: d.events <:+ e.events
  /-- The loop performs the cycle that began last. -/
  performs : d.worker.wantsUnit = true → ∃ since, d.events.head? = some (.begun since)

/-! ## Where the loop stands -/

variable {now : Nat} {s t : Worker υ π α} {es : List Event}

/-- What the loop has done last, told by where it is. -/
def Matches (now : Nat) (s : Worker υ π α) (es : List Event) : Prop :=
  match s.loop with
  | .absent | .ended => ∀ e ∈ es.head?, e.isBegun = false
  | .spawned instant => instant = now ∧ es.head? = some (.started instant)
  | .asleep wake => ∃ deadline, deadline? s.initialDelay es = some deadline ∧
      s.nextCycle = some deadline ∧ now ≤ wake.rings ∧
      (deadline < Instant.endOfTime → wake.rings = Instant.tick deadline)
  | .claiming since | .cycling since _ _ _ _ => es.head? = some (.begun since)

/-- What holds of a worker and its events, from one step to the next. -/
structure Kept (now : Nat) (s : Worker υ π α) (es : List Event) : Prop where
  events : InCadence s.initialDelay es
  past : ∀ e ∈ es.head?, e.instant ≤ now
  matching : Matches now s es

theorem idle_of_deadline {delay deadline : Nat} {es : List Event}
    (h : deadline? delay es = some deadline) : ∀ e ∈ es.head?, e.isBegun = false := by
  intro e he
  cases es with
  | nil => cases he
  | cons last es =>
      have hlast : last = e := Option.some.inj he
      rw [← hlast]
      cases last with
      | begun instant => cases h
      | started instant => rfl
      | ended instant period => rfl

theorem Matches.idle (h : Matches now s es) (hwants : s.wantsUnit = false) :
    ∀ e ∈ es.head?, e.isBegun = false := by
  unfold Matches at h
  cases hloop : s.loop with
  | claiming | cycling => simp [wantsUnit, hloop] at hwants
  | absent | ended =>
      rw [hloop] at h
      exact h
  | spawned instant =>
      rw [hloop] at h
      intro e he
      rw [h.2] at he
      cases he
      rfl
  | asleep wake =>
      rw [hloop] at h
      obtain ⟨deadline, hdeadline, _⟩ := h
      exact idle_of_deadline hdeadline

theorem Matches.congr (h : Matches now s es) (hloop : t.loop = s.loop)
    (hnext : t.nextCycle = s.nextCycle) (hdelay : t.initialDelay = s.initialDelay) :
    Matches now t es := by
  unfold Matches
  rw [hloop, hnext, hdelay]
  exact h

theorem matches_sleep (span : Nat) (w : World)
    (h : deadline? s.initialDelay es = some (now + span)) : Matches now (s.sleep span now w) es := by
  by_cases hstopping : s.stopping = true
  · have hended := (sleep_of_stopping hstopping span now w).1
    unfold Matches
    rw [hended]
    exact idle_of_deadline h
  · have hrings := Timer.rings_after now span w.rank
    have hle := Instant.le_endOfWait now span
    simp only [sleep, hstopping, Matches]
    refine ⟨now + span, h, rfl, by omega, ?_⟩
    intro htold
    rw [hrings, Instant.endOfWait, Instant.wait_of_lt htold]

/-! ## The turn of the loop -/

theorem Kept.wake (h : Kept now s es) {wake : Timer} (hloop : s.loop = .asleep wake)
    (hrings : wake.rings ≤ now) :
    now = wake.rings ∧ InCadence s.initialDelay (.begun now :: es) := by
  have hmatches := h.matching
  simp only [Matches, hloop] at hmatches
  obtain ⟨deadline, hdeadline, _, hle, htold⟩ := hmatches
  have hnow : now = wake.rings := by omega
  exact ⟨hnow, h.events.begun now hdeadline h.past fun hlt => hnow.trans (htold hlt)⟩

theorem kept_of_dead (hdead : s.isAlive = false) (hevents : InCadence s.initialDelay es)
    (hpast : ∀ e ∈ es.head?, e.instant ≤ now) (hidle : ∀ e ∈ es.head?, e.isBegun = false) :
    Kept now s es := by
  refine ⟨hevents, hpast, ?_⟩
  unfold Matches
  cases hloop : s.loop with
  | absent | ended => exact hidle
  | spawned | asleep | claiming | cycling => simp [isAlive, hloop] at hdead

/-- The cycle goes on until the loop does not want the unit any more. -/
theorem noteCycle_of_cycle {cycle : List Event}
    (hcycle : (if s.wakesUp then .begun now :: es else es) = cycle)
    (hgoes : s.wakesUp = true ∨ s.wantsUnit = true) :
    noteCycle s t now es = if t.wantsUnit then cycle else .ended now s.period :: cycle := by
  have heither : (s.wakesUp || s.wantsUnit) = true := by simpa using hgoes
  simp only [noteCycle, heither, hcycle, Bool.true_and]
  cases t.wantsUnit <;> rfl

theorem Kept.opens (h : Kept now s es) {wake : Timer} (hloop : s.loop = .asleep wake)
    (hgoes : s.stopping = false)
    (hdue : ∀ timer, s.loopDue now = some timer → timer.rings ≤ now) (t : Worker υ π α) :
    InCadence s.initialDelay (.begun now :: es) ∧ noteCycle s t now es =
      if t.wantsUnit then .begun now :: es else .ended now s.period :: .begun now :: es := by
  have hwakes : s.wakesUp = true := by simp [wakesUp, hloop, hgoes]
  have hrings := hdue wake (by simp [loopDue, hloop, hgoes])
  exact ⟨(h.wake hloop hrings).2, noteCycle_of_cycle (if_pos hwakes) (.inl hwakes)⟩

theorem Kept.goesOn (h : Kept now s es) {since : Nat} (hloop : s.loop = .claiming since ∨
      ∃ action rest ending course, s.loop = .cycling since action rest ending course)
    (t : Worker υ π α) :
    ∃ rest, es = .begun since :: rest ∧ since ≤ now ∧ noteCycle s t now es =
      if t.wantsUnit then .begun since :: rest else .ended now s.period :: .begun since :: rest := by
  have hmatches := h.matching
  have hsleepless : s.wakesUp = false ∧ s.wantsUnit = true ∧ es.head? = some (.begun since) := by
    rcases hloop with hloop | ⟨action, rest, ending, course, hloop⟩
    · simpa [wakesUp, wantsUnit, Matches, hloop] using hmatches
    · simpa [wakesUp, wantsUnit, Matches, hloop] using hmatches
  obtain ⟨hwakes, hwants, hbegun⟩ := hsleepless
  obtain ⟨rest, rfl⟩ := List.head?_eq_some_iff.mp hbegun
  have hsince : since ≤ now := h.past (.begun since) rfl
  exact ⟨rest, rfl, hsince,
    noteCycle_of_cycle (if_neg (ne_true_of_eq_false hwakes)) (.inr hwants)⟩

variable [Craft υ π α]

theorem kept_advance {since : Nat} (hevents : InCadence s.initialDelay (.begun since :: es))
    (hsince : since ≤ now) (rest : List α) (w : World) :
    Kept now (s.advance since rest now w)
      (if (s.advance since rest now w).wantsUnit then .begun since :: es
        else .ended now s.period :: .begun since :: es) := by
  cases rest with
  | cons action rest =>
      have hwants : (s.advance since (action :: rest) now w).wantsUnit = true := rfl
      rw [hwants, if_pos rfl]
      exact ⟨hevents, by simpa using hsince, rfl⟩
  | nil =>
      have hwants : (s.advance since [] now w).wantsUnit = false := sleep_wantsUnit ..
      have hdelay := advance_initialDelay s since [] now w
      rw [hwants, if_neg Bool.false_ne_true]
      refine ⟨hdelay ▸ hevents.ended now s.period hsince, by simp, ?_⟩
      refine matches_sleep _ w ?_
      simp only [deadline?, Option.some.injEq]
      omega

theorem Pace.kept (hpace : Pace now s t) (h : Kept now s es)
    (hdue : ∀ timer, s.loopDue now = some timer → timer.rings ≤ now) :
    Kept now t (noteCycle s t now es) := by
  have hmatches := h.matching
  -- A cycle that cannot go on ends with the loop.
  have hgone {since : Nat} {rest : List Event} {u : Worker υ π α} (hloop : u.loop = .ended)
      (hdelay : u.initialDelay = s.initialDelay) (hsince : since ≤ now)
      (hevents : InCadence s.initialDelay (.begun since :: rest)) :
      Kept now u (.ended now s.period :: .begun since :: rest) := by
    have hdead : u.isAlive = false := by simp [Worker.isAlive, hloop]
    refine kept_of_dead hdead ?_ (by simp) (by simp)
    rw [hdelay]
    exact hevents.ended now s.period hsince
  cases hpace with
  | wake instant w hloop =>
      have hnone : noteCycle s (s.wake now w) now es = es := by
        simp [noteCycle, wakesUp, wantsUnit, hloop]
      simp only [Matches, hloop] at hmatches
      obtain ⟨rfl, hstarted⟩ := hmatches
      rw [hnone]
      unfold Worker.wake
      split
      case isTrue => exact kept_of_dead rfl h.events h.past (by simp [hstarted])
      case isFalse =>
          refine ⟨?_, h.past, matches_sleep _ w ?_⟩
          · rw [sleep_initialDelay]
            exact h.events
          · obtain ⟨rest, rfl⟩ := List.head?_eq_some_iff.mp hstarted
            rfl
  | leave timer hloop hstopping =>
      have hnone : noteCycle s s.leave now es = es := by
        simp [noteCycle, wakesUp, wantsUnit, hloop, hstopping]
      have hwants : s.wantsUnit = false := by simp [wantsUnit, hloop]
      rw [hnone]
      exact kept_of_dead rfl h.events h.past (h.matching.idle hwants)
  | wait timer hloop hgoes =>
      let u : Worker υ π α := { s with loop := .claiming now, claims := s.claims ++ [.cycle] }
      obtain ⟨hbegun, hnoted⟩ := h.opens hloop hgoes hdue u
      have hwants : u.wantsUnit = true := rfl
      rw [hnoted, hwants, if_pos rfl]
      exact ⟨hbegun, by simp, rfl⟩
  | enter timer w hloop hgoes hunit =>
      let v : Worker υ π α := { s with loop := .claiming now, claims := s.claims ++ [.cycle] }
      obtain ⟨hbegun, hnoted⟩ := h.opens hloop hgoes hdue (v.advance now s.actions now w)
      rw [hnoted]
      exact kept_advance (s := v) hbegun (Nat.le_refl now) s.actions w
  | begin since w hloop hunit =>
      obtain ⟨rest, rfl, hsince, hnoted⟩ := h.goesOn (.inl hloop) (s.advance since s.actions now w)
      rw [hnoted]
      exact kept_advance h.events hsince s.actions w
  | @done since action others ending course w w' unit hloop hfinish =>
      let v : Worker υ π α := { s with unit }
      obtain ⟨rest, rfl, hsince, hnoted⟩ :=
        h.goesOn (.inr ⟨_, _, _, _, hloop⟩) (v.advance since others now w')
      rw [hnoted]
      exact kept_advance (s := v) h.events hsince others w'
  | @endure since action others ending course w w' unit e hloop hfinish hendured =>
      let v : Worker υ π α := ({ s with unit } : Worker υ π α).record action e
      obtain ⟨rest, rfl, hsince, hnoted⟩ :=
        h.goesOn (.inr ⟨_, _, _, _, hloop⟩) (v.advance since others now w')
      rw [hnoted]
      exact kept_advance (s := v) h.events hsince others w'
  | @fail since action others ending course w w' unit e hloop hfinish hfailed =>
      let u : Worker υ π α := { ({ s with unit } : Worker υ π α).record action e with loop := .ended }
      obtain ⟨rest, rfl, hsince, hnoted⟩ := h.goesOn (.inr ⟨_, _, _, _, hloop⟩) u
      rw [hnoted]
      exact hgone rfl rfl hsince h.events
  | @crash since action others ending course w w' unit hloop hfinish =>
      let u : Worker υ π α := { s with unit, loop := .ended }
      obtain ⟨rest, rfl, hsince, hnoted⟩ := h.goesOn (.inr ⟨_, _, _, _, hloop⟩) u
      rw [hnoted]
      exact hgone rfl rfl hsince h.events

/-! ## Steps and runs -/

theorem Handed.kept (hhanded : Handed now s t) (hrunning : s.isAlive = true → s.state = .running)
    (h : Kept now s es) : Kept now t (noteStart s.isSpawned t now es) := by
  have hspared := hhanded.spared hrunning
  obtain ⟨hnext, hdelay⟩ := hhanded.frame
  have hsame (hloop : t.loop = s.loop) : noteStart s.isSpawned t now es = es := by
    simp [noteStart, isSpawned, hloop]
  have hevents : InCadence t.initialDelay es := hdelay ▸ h.events
  cases halive : s.isAlive with
  | true =>
      have hloop := (hspared.alive halive).1
      rw [hsame hloop]
      exact ⟨hevents, h.past, h.matching.congr hloop hnext hdelay⟩
  | false =>
      have hidle := h.matching.idle (wantsUnit_of_not_isAlive halive)
      rcases hspared.dead halive with hdead | ⟨hspawned, _⟩
      · have hnone : noteStart s.isSpawned t now es = es := by
          cases hloop : t.loop <;> simp_all [noteStart, isSpawned, isAlive]
        rw [hnone]
        exact kept_of_dead hdead hevents h.past hidle
      · have hbefore : s.isSpawned = false := by
          cases hloop : s.loop <;> simp_all [isSpawned, isAlive]
        have hafter : t.isSpawned = true := by simp [isSpawned, hspawned]
        have hnoted : noteStart s.isSpawned t now es = .started now :: es := by
          simp [noteStart, hbefore, hafter]
        have hstarted : InCadence t.initialDelay (.started now :: es) :=
          hevents.started now fun e he => ⟨hidle e he, h.past e he⟩
        rw [hnoted]
        exact ⟨hstarted, by simp, by simp [Matches, hspawned]⟩

variable [Timed υ]

theorem Outside.kept (houtside : Outside unmarked now s t) (hsettled : s.Settled now)
    (h : Kept now s es) : Kept now t (noteStart s.isSpawned t now es) := by
  obtain ⟨u, hquiet, hu, hhanded⟩ := houtside.parts hsettled
  have hframe := houtside.frame
  have hframe' := hhanded.frame
  have hnext : u.nextCycle = s.nextCycle := hframe'.1.symm.trans hframe.1
  have hdelay : u.initialDelay = s.initialDelay := hframe'.2.symm.trans hframe.2
  have hevents : InCadence u.initialDelay es := hdelay ▸ h.events
  have hbefore : u.isSpawned = s.isSpawned ∧ Kept now u es := by
    rcases hquiet.loop with hloop | ⟨hdead, habsent⟩
    · refine ⟨by simp [isSpawned, hloop], hevents, h.past, ?_⟩
      exact h.matching.congr hloop hnext hdelay
    · refine ⟨?_, kept_of_dead ?_ hevents h.past ?_⟩
      · cases hloop : s.loop <;> simp_all [isSpawned, isAlive]
      · simp [isAlive, habsent]
      · exact h.matching.idle (wantsUnit_of_not_isAlive hdead)
  rw [← hbefore.1]
  exact hhanded.kept hu.orderly.running hbefore.2

omit [Craft υ π α] [Timed υ] in
theorem Kept.later (h : Kept now s es) {later : Nat} (hle : now ≤ later)
    (hbound : ∀ timer, s.loopDue now = some timer → later ≤ timer.rings) : Kept later s es := by
  refine ⟨h.events, fun e he => Nat.le_trans (h.past e he) hle, ?_⟩
  have hmatches := h.matching
  unfold Matches at hmatches ⊢
  cases hloop : s.loop with
  | absent | ended | claiming | cycling =>
      rw [hloop] at hmatches
      exact hmatches
  | spawned instant =>
      rw [hloop] at hmatches
      obtain ⟨rfl, hstarted⟩ := hmatches
      have hlater := hbound (.woken instant) (by simp [loopDue, hloop])
      simp only [Timer.woken] at hlater
      exact ⟨by omega, hstarted⟩
  | asleep wake =>
      rw [hloop] at hmatches
      obtain ⟨deadline, hdeadline, hnext, hrings, htold⟩ := hmatches
      refine ⟨deadline, hdeadline, hnext, ?_, htold⟩
      by_cases hstopping : s.stopping = true
      · -- A loop that is asked to end does so at once.
        have hlater := hbound (.woken now) (by simp [loopDue, hloop, hstopping])
        simp only [Timer.woken] at hlater
        omega
      · exact hbound wake (by simp [loopDue, hloop, hstopping])

namespace Diary

variable {d e : Diary υ π α} {period : Nat}

theorem Step.kept (hstep : Step d e) (hsettled : d.worker.Settled d.now)
    (h : Kept d.now d.worker d.events) : Kept e.now e.worker e.events := by
  cases hstep with
  | outside houtside => exact houtside.kept hsettled h
  | pass instant hle hbound =>
      refine h.later hle fun wake hwake => ?_
      obtain ⟨timer, hdue, hrings⟩ := exists_due hwake
      exact Nat.le_trans (hbound timer hdue) hrings
  | turn timer w hdue hrings =>
      cases hfirst : d.loopIsFirst with
      | false =>
          rw [turned_of_not_first hfirst w]
          exact ⟨h.events, h.past, h.matching.congr rfl rfl rfl⟩
      | true =>
          obtain ⟨u, hpace, hhanded, hu, hevents⟩ := turned_of_first hsettled hfirst w
          have hnow : (d.turned w).now = d.now := by simp [turned, hfirst]
          rw [hevents, hnow]
          refine hhanded.kept hu.orderly.running (hpace.kept h fun wake hwake => ?_)
          rw [due_of_first hfirst, hwake] at hdue
          cases hdue
          exact hrings

variable [BEq α]

theorem Reachable.kept (h : Reachable period d) : Kept d.now d.worker d.events := by
  induction h with
  | made stopTimeout hnew =>
      obtain ⟨_, hloop, _⟩ := (Made.new stopTimeout hnew).spec
      refine kept_of_dead ?_ .nothing (by simp) (by simp)
      rw [isAlive, hloop]
  | step hbefore hstep ih => exact hstep.kept hbefore.settled ih

theorem Reachable.starts (h : Reachable period d) {instant : Nat}
    (hloop : d.worker.loop = .spawned instant) :
    instant = d.now ∧ d.events.head? = some (.started instant) ∧
      ∃ timer, d.worker.due d.now = some timer ∧ timer.rings ≤ d.now := by
  have hmatches := h.kept.matching
  simp only [Matches, hloop] at hmatches
  obtain ⟨rfl, hstarted⟩ := hmatches
  have hdue : d.worker.loopDue d.now = some (.woken d.now) := by simp [loopDue, hloop]
  exact ⟨rfl, hstarted, exists_due hdue⟩

theorem Reachable.sleeps (h : Reachable period d) {instant : Nat}
    (hloop : d.worker.loop = .spawned instant) (hgoes : d.worker.stopping = false)
    (htold : instant + d.worker.initialDelay < Instant.endOfTime) (hstep : Step d e) :
    e.events = d.events ∧
      (e.worker.loop = .spawned instant ∨ ∃ wake, e.worker.loop = .asleep wake) := by
  have halive : d.worker.isAlive = true := by rw [isAlive, hloop]
  obtain ⟨rfl, _⟩ := h.starts hloop
  rcases hstep.rests_or_turns h.settled halive with ⟨hsame, hevents⟩ | ⟨w, rfl, hfirst, _⟩
  · exact ⟨hevents, .inl (hsame.trans hloop)⟩
  · obtain ⟨hevents, hasleep⟩ := turned_of_spawned hfirst hloop hgoes htold w
    exact ⟨hevents, .inr hasleep⟩

theorem Reachable.waits (h : Reachable period d) {wake : Timer}
    (hloop : d.worker.loop = .asleep wake) :
    ∃ deadline, deadline? d.worker.initialDelay d.events = some deadline ∧
      d.worker.nextCycle = some deadline ∧
      (d.worker.summary d.now).remaining = some (deadline - d.now) ∧ d.now ≤ wake.rings ∧
      (deadline < Instant.endOfTime → wake.rings = Instant.tick deadline) := by
  have halive : d.worker.isAlive = true := by rw [isAlive, hloop]
  have hstate := h.settled.orderly.running halive
  have hmatches := h.kept.matching
  simp only [Matches, hloop] at hmatches
  obtain ⟨deadline, hdeadline, hnext, hrings, htold⟩ := hmatches
  have hremaining : (d.worker.summary d.now).remaining = some (deadline - d.now) := by
    simp [summary, hstate, hnext]
  exact ⟨deadline, hdeadline, hnext, hremaining, hrings, htold⟩

theorem Reachable.wakes (h : Reachable period d) {wake : Timer}
    (hloop : d.worker.loop = .asleep wake) (hgoes : d.worker.stopping = false)
    (hstep : Step d e) :
    e.worker.loop = .asleep wake ∧ e.events = d.events ∨
      d.now = wake.rings ∧ .begun d.now :: d.events <:+ e.events := by
  have halive : d.worker.isAlive = true := by rw [isAlive, hloop]
  have hdue : d.worker.loopDue d.now = some wake := by simp [loopDue, hloop, hgoes]
  rcases hstep.rests_or_turns h.settled halive with ⟨hsame, hevents⟩ | ⟨w, rfl, hfirst, hrings⟩
  · exact .inl ⟨hsame.trans hloop, hevents⟩
  · obtain ⟨u, _, _, _, hevents⟩ := turned_of_first h.settled hfirst w
    have hnoted := (h.kept.opens hloop hgoes hrings u).2
    have hbegun : .begun d.now :: d.events <:+ noteCycle d.worker u d.now d.events := by
      rw [hnoted]
      split
      · exact List.suffix_refl _
      · exact List.suffix_cons ..
    refine .inr ⟨(h.kept.wake hloop (hrings wake hdue)).1, ?_⟩
    rw [hevents]
    exact hbegun.trans (suffix_noteStart ..)

theorem Reachable.performs (h : Reachable period d) (hwants : d.worker.wantsUnit = true) :
    ∃ since, d.events.head? = some (.begun since) := by
  have hmatches := h.kept.matching
  unfold Matches at hmatches
  cases hloop : d.worker.loop with
  | claiming since =>
      rw [hloop] at hmatches
      exact ⟨since, hmatches⟩
  | cycling since action rest ending course =>
      rw [hloop] at hmatches
      exact ⟨since, hmatches⟩
  | absent | ended | spawned | asleep => simp [wantsUnit, hloop] at hwants

/-- The cycles of a worker keep their cadence, whoever deals with it meanwhile, however long
a cycle takes and whenever the period is changed. -/
theorem Reachable.cadence (h : Reachable period d) : Cadence period d where
  delay := h.delay_le
  events := h.kept.events
  starts _ hloop := h.starts hloop
  sleeps _ hloop hgoes htold _ hstep := h.sleeps hloop hgoes htold hstep
  waits _ hloop := h.waits hloop
  wakes wake hloop hgoes := by
    have hdue : d.worker.loopDue d.now = some wake := by simp [loopDue, hloop, hgoes]
    exact ⟨exists_due hdue, fun _ hstep => h.wakes hloop hgoes hstep⟩
  performs := h.performs

/-! ## A cycle that takes a minute -/

def firstCycle : Diary SimulatedUnit SimulatedParam String :=
  ((({ worker := clock, now := 0, events := [] } : Diary SimulatedUnit SimulatedParam String).met
    (clock.start 0)).turned slowWorld).turned slowWorld

/-- During the first cycle the period is made longer. Afterwards it is made shorter than
the second cycle. -/
def thirdCycle : Diary SimulatedUnit SimulatedParam String :=
  let longer := firstCycle.met (firstCycle.worker.setPeriod (Duration.ofSeconds 90))
  let waiting := longer.untilTurn (Duration.ofSeconds 60) slowWorld
  let shorter := waiting.met (waiting.worker.setPeriod (Duration.ofSeconds 10))
  let second := shorter.untilTurn (Duration.ofSeconds 90) slowWorld
  (second.untilTurn (Duration.ofSeconds 150) slowWorld).turned slowWorld

theorem reachable_firstCycle : Reachable (Duration.ofSeconds 1) firstCycle := by
  have hnew : Worker.new "clock" clockParam ["Tick", "Chime"] (Duration.ofSeconds 1) (.given 0) 0
      slowWorld = (.ok clock, (SimulatedUnit.nextBuild slowWorld clockParam).2) := rfl
  have hmade : Reachable (Duration.ofSeconds 1) ⟨clock, 0, []⟩ := .made usualStopTimeout hnew
  have hstarted := hmade.start slowWorld
  have hslept := hstarted.step (.turn _ slowWorld rfl (Nat.le_refl 0))
  exact hslept.step (.turn _ slowWorld rfl (Nat.le_refl 0))

theorem reachable_thirdCycle : Reachable (Duration.ofSeconds 1) thirdCycle := by
  have hlonger := reachable_firstCycle.setPeriod slowWorld (Duration.ofSeconds 90)
  have hwaiting := hlonger.untilTurn slowWorld rfl (by decide) rfl
  have hshorter := hwaiting.setPeriod slowWorld (Duration.ofSeconds 10)
  have hsecond := hshorter.untilTurn slowWorld rfl (by decide) rfl
  have hlate := hsecond.untilTurn slowWorld rfl (by decide) rfl
  exact hlate.step (.turn _ slowWorld rfl (by decide))

/-- The second cycle begins when the longer period is over, and the third one when the
second has ended, for that has taken longer than its period. -/
theorem cadence_thirdCycle :
    Reachable (Duration.ofSeconds 1) thirdCycle ∧
      thirdCycle.events = [.begun (Duration.ofSeconds 150),
        .ended (Duration.ofSeconds 150) (Duration.ofSeconds 10), .begun (Duration.ofSeconds 90),
        .ended (Duration.ofSeconds 60) (Duration.ofSeconds 90), .begun 0, .started 0] ∧
      Cadence (Duration.ofSeconds 1) thirdCycle :=
  ⟨reachable_thirdCycle, rfl, reachable_thirdCycle.cadence⟩

/-! ## A first deadline that cannot be told -/

/-- The delay before the first cycle leads past the last instant that can be told. -/
def lostDiary : Diary SimulatedUnit SimulatedParam String :=
  (({ worker := endlessClock, now := 0, events := [] } :
    Diary SimulatedUnit SimulatedParam String).met (endlessClock.start 0)).turned exitWorld

/-- The loop is gone after its first turn, though nobody has asked it to end. So there is
no turn in which a cycle could begin, and no deadline is told. -/
theorem lost_before_first_cycle :
    Reachable endlessSpan lostDiary ∧ lostDiary.events = [.started 0] ∧
      lostDiary.worker.stopping = false ∧ lostDiary.worker.state = .running ∧
      lostDiary.worker.isAlive = false ∧ (∀ now, lostDiary.worker.due now = none) ∧
      ∀ now, (lostDiary.worker.summary now).remaining = none := by
  refine ⟨?_, rfl, rfl, rfl, rfl, fun _ => rfl, fun _ => rfl⟩
  have hnew : Worker.new "clock" clockParam ["Tick", "Chime"] endlessSpan (.given endlessSpan) 0
      exitWorld = (.ok endlessClock, (SimulatedUnit.nextBuild exitWorld clockParam).2) := rfl
  have hmade : Reachable endlessSpan ⟨endlessClock, 0, []⟩ := .made usualStopTimeout hnew
  have hstarted := hmade.start exitWorld
  exact hstarted.step (.turn _ exitWorld rfl (Nat.le_refl 0))

end Diary
end EdgeAgent.Worker
