import EdgeAgent.Proofs.Clock.Steady
import EdgeAgent.Proofs.Worker.Calls
import EdgeAgent.Proofs.Worker.Steps
import EdgeAgent.Proofs.Worker.Waiting

/-! # A stop is final

A loop that was asked to end begins no cycle any more. A cycle that has begun goes on
to its last action, and then the loop ends. That lasts until the worker is started
anew, which takes a worker that does not run.
-/

namespace EdgeAgent.Worker

variable {υ π α : Type}

/-! ## Statement -/

/-- What is left to perform of the cycle that has begun; a loop that waits for the unit
has begun one. -/
def owed (s : Worker υ π α) : List α :=
  match s.loop with
  | .claiming _ => s.actions
  | .cycling _ action rest _ _ => action :: rest
  | _ => []

/-- If the loop is there, it was asked to end. So it is from a stop on until the worker
is started anew. -/
def Heeds (s : Worker υ π α) : Prop := s.isAlive = true → s.stopping = true

def unmarked (_ : υ) : Unit := ()

variable [Craft υ π α]

/-- The loop of `s` ends with its cycle: all actions are performed, or one is fatal or
crashes. -/
structure EndsCycle (s t : Worker υ π α) : Prop where
  loop : t.loop = .ended
  reason : t.state = .stopped ∧ s.owed.length ≤ 1 ∨ t.state.isFailed = true ∨
    t.state = .running ∧ ∃ w, s.crashes w = true

/-- A step from `s` to `t` by way of `u`, where the loop was asked to end. -/
structure Winds (now : Nat) (s u t : Worker υ π α) : Prop where
  /-- A cycle that goes on has begun before, and ends at most one action. -/
  begun : t.wantsUnit = true → s.wantsUnit = true ∧
    (t.owed = s.owed ∨ ∃ action, s.owed = action :: t.owed)
  ended : s.wantsUnit = true → u.wantsUnit = false → EndsCycle s u
  /-- Only a worker whose loop is gone is started anew. -/
  started : Heeds t ∨ u.isAlive = false ∧ t.loop = .spawned now

variable [Timed υ]

def stopAsked (t : Timeline (Worker υ π α)) : Timeline (Worker υ π α) :=
  t.act fun s _ w => (s.stop, w)

/-- The last instant at which an end of the loop counts. -/
def stopLimit (t : Timeline (Worker υ π α)) : Nat :=
  Instant.endOfWait t.now t.part.stopTimeout - 1

def stopTurns (t : Timeline (Worker υ π α)) : Timeline (Worker υ π α) :=
  (stopAsked t).run (some (stopLimit t)) (!·.isAlive) t.patience

/-- There are no more turns until then than can be waited for. -/
def StopSettles (t : Timeline (Worker υ π α)) : Prop :=
  (stopTurns t).part.isAlive = false ∨ ((stopTurns t).step? (some (stopLimit t))).isNone = true

section

omit [Craft υ π α] [Timed υ]

theorem owed_of_not_wants {s : Worker υ π α} (h : s.wantsUnit = false) : s.owed = [] := by
  cases hloop : s.loop <;> simp_all [wantsUnit, Worker.owed]

theorem isAlive_of_wantsUnit {s : Worker υ π α} (h : s.wantsUnit = true) : s.isAlive = true := by
  cases hloop : s.loop <;> simp_all [wantsUnit, isAlive]

theorem wantsUnit_of_loop {s t : Worker υ π α} (h : t.loop = s.loop) :
    t.wantsUnit = s.wantsUnit := by
  rw [wantsUnit, h, wantsUnit]

theorem owed_of_loop {s t : Worker υ π α} (hloop : t.loop = s.loop)
    (hactions : t.actions = s.actions) :
    t.owed = s.owed := by
  rw [Worker.owed, hloop, hactions, Worker.owed]

theorem sleep_of_stopping {s : Worker υ π α} (h : s.stopping = true) (span now : Nat) (w : World) :
    (s.sleep span now w).loop = .ended ∧ (s.sleep span now w).state = .stopped := by
  unfold sleep
  dsimp only
  rw [if_pos h]
  exact ⟨rfl, rfl⟩

variable {s t : Worker υ π α} {now : Nat}

theorem Quiet.wantsUnit (h : Quiet unmarked s t) : t.wantsUnit = s.wantsUnit := by
  rcases h.loop with hsame | ⟨hdead, habsent⟩
  · exact wantsUnit_of_loop hsame
  · rw [wantsUnit_of_not_isAlive hdead]
    simp [Worker.wantsUnit, habsent]

theorem Quiet.owed (h : Quiet unmarked s t) : t.owed = s.owed := by
  rcases h.loop with hsame | ⟨hdead, habsent⟩
  · exact owed_of_loop hsame h.actions
  · rw [owed_of_not_wants (wantsUnit_of_not_isAlive hdead)]
    simp [Worker.owed, habsent]

theorem Quiet.heeds (h : Quiet unmarked s t) (hs : Heeds s) : Heeds t := by
  intro halive
  rcases h.loop with hsame | ⟨_, habsent⟩
  · exact h.stopping (hs (by rwa [isAlive, ← hsame]))
  · simp [isAlive, habsent] at halive

theorem Spared.wantsUnit (h : Spared now s t) (ht : t.wantsUnit = true) :
    s.wantsUnit = true ∧ t.owed = s.owed := by
  cases halive : s.isAlive with
  | true =>
      have hloop := (h.alive halive).1
      exact ⟨(wantsUnit_of_loop hloop).symm.trans ht, owed_of_loop hloop h.actions⟩
  | false =>
      rcases h.dead halive with hdead | ⟨hspawned, _⟩
      · exact nomatch (wantsUnit_of_not_isAlive hdead).symm.trans ht
      · simp [Worker.wantsUnit, hspawned] at ht

end

section

omit [Timed υ]

variable {s t : Worker υ π α} {now : Nat}

theorem advance_of_stopping (h : s.stopping = true) (since : Nat) (rest : List α) (now : Nat)
    (w : World) :
    rest = [] ∧ (s.advance since rest now w).loop = .ended ∧
        (s.advance since rest now w).state = .stopped ∨
      (s.advance since rest now w).isCycling = true ∧ (s.advance since rest now w).owed = rest := by
  cases rest with
  | nil => exact .inl ⟨rfl, sleep_of_stopping h ..⟩
  | cons action rest => exact .inr ⟨rfl, rfl⟩

theorem Pace.proceeds (h : Pace now s t) (hstopping : s.stopping = true)
    (hrunning : s.state = .running) (hwants : s.wantsUnit = true) :
    EndsCycle s t ∨ t.isCycling = true ∧
      if s.isCycling then ∃ action, s.owed = action :: t.owed else t.owed = s.owed := by
  -- The end of an action that is not fatal.
  have hends {v : Worker υ π α} (hv : v.stopping = true) {since : Nat} {action : α}
      {rest : List α} {ending : Timer} {course : Course υ UnitError}
      (hloop : s.loop = .cycling since action rest ending course) (w : World) :
      EndsCycle s (v.advance since rest now w) ∨ (v.advance since rest now w).isCycling = true ∧
        if s.isCycling then ∃ action, s.owed = action :: (v.advance since rest now w).owed
        else (v.advance since rest now w).owed = s.owed := by
    have hcycling : s.isCycling = true := by simp [isCycling, hloop]
    have howed : s.owed = action :: rest := by simp [Worker.owed, hloop]
    rw [if_pos hcycling, howed]
    rcases advance_of_stopping hv since rest now w with ⟨hrest, hgone, hstate⟩ | ⟨hgoes, hleft⟩
    · exact .inl ⟨hgone, .inl ⟨hstate, by simp [howed, hrest]⟩⟩
    · exact .inr ⟨hgoes, action, by rw [hleft]⟩
  cases h with
  | wake _ _ hloop | leave _ hloop | wait _ hloop | enter _ _ hloop =>
      simp [wantsUnit, hloop] at hwants
  | begin since w hloop hunit =>
      have hcycling : s.isCycling = false := by simp [isCycling, hloop]
      have howed : s.owed = s.actions := by simp [Worker.owed, hloop]
      rw [if_neg (ne_true_of_eq_false hcycling)]
      rcases advance_of_stopping hstopping since s.actions now w with
        ⟨hnone, hgone, hstate⟩ | ⟨hgoes, hleft⟩
      · exact .inl ⟨hgone, .inl ⟨hstate, by simp [howed, hnone]⟩⟩
      · exact .inr ⟨hgoes, hleft.trans howed.symm⟩
  | @done since action rest ending course w w' unit hloop hfinish =>
      exact hends (v := { s with unit }) hstopping hloop w'
  | @endure since action rest ending course w w' unit e hloop hfinish hendured =>
      exact hends (v := ({ s with unit } : Worker υ π α).record action e) hstopping hloop w'
  | fail hloop hfinish hfailed => exact .inl ⟨rfl, .inr (.inl hfailed)⟩
  | @crash since action rest ending course w w' unit hloop hfinish =>
      refine .inl ⟨rfl, .inr (.inr ⟨hrunning, w, ?_⟩)⟩
      simp [crashes, hloop, hfinish]

theorem Pace.not_wants (h : Pace now s t) (hstopping : s.stopping = true)
    (hwants : s.wantsUnit = false) : t.wantsUnit = false := by
  cases h with
  | wake instant w hloop =>
      unfold Worker.wake
      split
      · rfl
      · simp [wantsUnit, (sleep_of_stopping hstopping s.initialDelay now w).1]
  | leave => rfl
  | wait _ _ hgoes | enter _ _ _ hgoes => simp [hgoes] at hstopping
  | begin _ _ hloop | done hloop | endure hloop => simp [wantsUnit, hloop] at hwants
  | fail | crash => rfl

theorem advance_stopping (s : Worker υ π α) (since : Nat) (rest : List α) (now : Nat) (w : World) :
    (s.advance since rest now w).stopping = s.stopping := by
  cases rest with
  | nil =>
      simp only [advance, sleep]
      split <;> rfl
  | cons action rest => rfl

theorem Pace.stopping (h : Pace now s t) : t.stopping = s.stopping := by
  cases h with
  | wake instant w hloop =>
      simp only [Worker.wake, Worker.sleep]
      split
      · rfl
      · split <;> rfl
  | leave | wait | fail | crash => rfl
  | enter | begin | done | endure => exact advance_stopping ..

end

/-! ## Steps -/

variable {s t : Worker υ π α} {now : Nat}

theorem Step.winds (hstep : Step unmarked now s t) (hsettled : s.Settled now) (hs : Heeds s) :
    ∃ u, (Quiet unmarked s u ∨ Pace now s u) ∧ Handed now u t ∧ Winds now s u t := by
  obtain ⟨u, hown, hu, hhanded⟩ := hstep.parts (fun _ _ _ => rfl) hsettled
  have hspared := hhanded.spared hu.orderly.running
  have hstarted (hheeds : Heeds u) : Heeds t ∨ u.isAlive = false ∧ t.loop = .spawned now := by
    cases halive : u.isAlive with
    | true => exact .inl fun _ => (hspared.alive halive).2.2.trans (hheeds halive)
    | false =>
        rcases hspared.dead halive with hdead | ⟨hspawned, _⟩
        · exact .inl fun ht => (nomatch hdead.symm.trans ht)
        · exact .inr ⟨rfl, hspawned⟩
  refine ⟨u, hown, hhanded, ?_⟩
  rcases hown with hquiet | hpace
  · refine ⟨fun ht => ?_, fun hwants hnot => ?_, hstarted (hquiet.heeds hs)⟩
    · obtain ⟨hwants, howed⟩ := hspared.wantsUnit ht
      exact ⟨hquiet.wantsUnit.symm.trans hwants, .inl (howed.trans hquiet.owed)⟩
    · exact nomatch hnot.symm.trans (hquiet.wantsUnit.trans hwants)
  · have hstopping := hs hpace.isAlive
    have hrunning := hsettled.orderly.running hpace.isAlive
    refine ⟨fun ht => ?_, fun hwants hnot => ?_, hstarted fun _ => hpace.stopping.trans hstopping⟩
    · obtain ⟨hu, howed⟩ := hspared.wantsUnit ht
      cases hwants : s.wantsUnit with
      | false => exact nomatch (hpace.not_wants hstopping hwants).symm.trans hu
      | true =>
          refine ⟨rfl, ?_⟩
          rw [howed]
          rcases hpace.proceeds hstopping hrunning hwants with hended | ⟨_, hleft⟩
          · simp [Worker.wantsUnit, hended.loop] at hu
          · split at hleft
            · exact .inr hleft
            · exact .inl hleft
    · rcases hpace.proceeds hstopping hrunning hwants with hended | ⟨hcycling, _⟩
      · exact hended
      · cases hloop : u.loop <;> simp_all [isCycling, Worker.wantsUnit]

theorem Settled.performs (h : s.Settled now) (hs : Heeds s) (w : World)
    (hfirst : Timer.isFirst (s.loopDue now) (Timed.due s.unit now) = true)
    (hwants : s.wantsUnit = true) :
    ∃ u, Pace now s u ∧ Handed now u (s.act now w .turn).1 ∧
      (EndsCycle s u ∨ u.isCycling = true ∧
        if s.isCycling then ∃ action, s.owed = action :: u.owed else u.owed = s.owed) := by
  have halive := isAlive_of_wantsUnit hwants
  have hturn : ∃ u, Pace now s u ∧ Handed now u (s.act now w .turn).1 := by
    simp only [act, turn, hfirst, if_true]
    exact h.loopTurn_pace (Timer.ne_none_of_isFirst hfirst) w
  obtain ⟨u, hpace, hhanded⟩ := hturn
  exact ⟨u, hpace, hhanded,
    hpace.proceeds (hs halive) (h.orderly.running halive) hwants⟩

theorem Goes.rest [BEq α] {u : Worker υ π α} {later : Nat}
    (h : Goes unmarked Heeds s.stop now u later) (hs : InUse unmarked s.stop now) :
    u.owed <:+ s.owed ∧ (u.wantsUnit = true → s.wantsUnit = true) := by
  induction h with
  | refl => exact ⟨List.suffix_refl _, id⟩
  | later _ _ ih => exact ih
  | @step t u reached hbefore hstep _ ih =>
      have hsettled := (hbefore.inUse hs).settled fun _ _ _ => rfl
      obtain ⟨_, _, _, hwinds⟩ := hstep.winds hsettled hbefore.holds
      refine ⟨?_, fun hwants => ih.2 (hwinds.begun hwants).1⟩
      cases hwants : u.wantsUnit with
      | false =>
          rw [owed_of_not_wants hwants]
          exact List.nil_suffix
      | true =>
          rcases (hwinds.begun hwants).2 with hsame | ⟨action, hleft⟩
          · rw [hsame]
            exact ih.1
          · exact (hleft ▸ List.suffix_cons action u.owed).trans ih.1

theorem Goes.gone [BEq α] {u : Worker υ π α} {later : Nat} (h : Goes unmarked Heeds s now u later)
    (hs : InUse unmarked s now) (hdead : s.isAlive = false) : u.isAlive = false := by
  induction h with
  | refl => exact hdead
  | later _ _ ih => exact ih
  | @step t u reached hbefore hstep hheeds ih =>
      have hsettled := (hbefore.inUse hs).settled fun _ _ _ => rfl
      obtain ⟨v, hown, hv, hhanded⟩ := hstep.parts (fun _ _ _ => rfl) hsettled
      have hvdead : v.isAlive = false := by
        rcases hown with hquiet | hpace
        · rcases hquiet.loop with hsame | ⟨_, habsent⟩
          · rw [isAlive, hsame]
            exact ih
          · rw [isAlive, habsent]
        · rw [hpace.isAlive] at ih
          cases ih
      rcases (hhanded.spared hv.orderly.running).dead hvdead with hgone | ⟨hspawned, _, hstopping⟩
      · exact hgone
      · -- Whoever is started anew was not asked to end.
        have halive : u.isAlive = true := by rw [isAlive, hspawned]
        have hheld : u.stopping = true := hheeds halive
        rw [hstopping] at hheld
        cases hheld

/-! ## Waiting for the end -/

variable [BEq α]

theorem InUse.run {t : Timeline (Worker υ π α)} (h : InUse unmarked t.part t.now) {limit : Nat}
    (hlimit : t.now ≤ limit) (done : Worker υ π α → Bool) (fuel : Nat) :
    InUse unmarked (t.run (some limit) done fuel).part (t.run (some limit) done fuel).now ∧
      (t.run (some limit) done fuel).now ≤ limit := by
  refine Timeline.run_keeps (P := fun t => InUse unmarked t.part t.now ∧ t.now ≤ limit)
    (fun t instant ht hinstant => ⟨?_, ?_⟩) done fuel ⟨h, hlimit⟩
  · exact (ht.1.later (Nat.le_max_left t.now instant)).step (.act .turn t.count.world)
  · exact Nat.max_le.mpr ⟨ht.2, by simpa using hinstant⟩

omit [BEq α] in
theorem Settled.due_of_stopping {s : Worker υ π α} {now : Nat} (h : s.Settled now)
    (halive : s.isAlive = true) (hstopping : s.stopping = true) (hwants : s.wantsUnit = false) :
    ∃ timer, Timed.due s now = some timer ∧ timer.rings ≤ now := by
  have hloop : ∃ timer, s.loopDue now = some timer ∧ timer.rings ≤ now := by
    cases hloop : s.loop with
    | absent | ended => simp [isAlive, hloop] at halive
    | claiming | cycling => simp [wantsUnit, hloop] at hwants
    | spawned instant => exact ⟨.woken instant, by simp [loopDue, hloop], h.spawned instant hloop⟩
    | asleep wake =>
        exact ⟨.woken now, by simp [loopDue, hloop, hstopping], Nat.le_refl now⟩
  obtain ⟨timer, hdue, hrings⟩ := hloop
  -- The unit may be due before the loop.
  have hsooner : Timed.due s now = Timer.sooner (s.loopDue now) (Timed.due s.unit now) := rfl
  rw [hsooner, hdue]
  cases Timed.due s.unit now with
  | none => exact ⟨timer, rfl, hrings⟩
  | some other =>
      exact ⟨_, Timer.sooner_some timer other,
        Nat.le_trans (Timer.rings_first timer other).1 hrings⟩

/-- The worker after a stop was waited for, before the end of its loop is confirmed. -/
def stopWaited (t : Timeline (Worker υ π α)) : Timeline (Worker υ π α) :=
  (stopAsked t).awaitAtMost (!·.isAlive) t.part.stopTimeout

omit [BEq α] in
theorem stopWaited_spec {t : Timeline (Worker υ π α)} (htimeout : 0 < t.part.stopTimeout) :
    (stopWaited t).part = (stopTurns t).part ∧
      ((stopWaited t).now = (stopTurns t).now ∨ (stopWaited t).now = stopLimit t + 1) := by
  have hend := Instant.lt_endOfWait t.now htimeout
  have hlimit : Instant.endOfWait t.now t.part.stopTimeout = stopLimit t + 1 := by
    unfold stopLimit
    omega
  obtain ⟨hpart, hnow⟩ := (stopAsked t).awaitAtMost_spec (!·.isAlive) htimeout
  refine ⟨hpart, ?_⟩
  rw [stopWaited, hnow]
  split
  · exact .inl rfl
  · exact .inr hlimit

theorem InUse.stopTurns {t : Timeline (Worker υ π α)} (h : InUse unmarked t.part t.now)
    (htimeout : 0 < t.part.stopTimeout) :
    InUse unmarked (stopTurns t).part (stopTurns t).now ∧ (stopTurns t).now ≤ stopLimit t := by
  have hasked : InUse unmarked (stopAsked t).part (stopAsked t).now := h.step (.act .stop t.world)
  have hend := Instant.lt_endOfWait t.now htimeout
  exact hasked.run (Nat.le_sub_one_of_lt hend) (!·.isAlive) t.patience

theorem InUse.stopWaited {t : Timeline (Worker υ π α)} (h : InUse unmarked t.part t.now) :
    InUse unmarked (stopWaited t).part (stopWaited t).now := by
  by_cases htimeout : 0 < t.part.stopTimeout
  · obtain ⟨hpart, hnow⟩ := stopWaited_spec htimeout
    obtain ⟨hturns, hle⟩ := h.stopTurns htimeout
    rw [hpart]
    rcases hnow with hnow | hnow
    · rw [hnow]
      exact hturns
    · rw [hnow]
      exact hturns.later (by omega)
  · have hwaited : Worker.stopWaited t = stopAsked t := if_pos (by omega)
    rw [hwaited]
    exact h.step (.act .stop t.world)

end EdgeAgent.Worker
