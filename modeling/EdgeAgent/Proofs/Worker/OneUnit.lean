import EdgeAgent.Proofs.Worker.Calls
import EdgeAgent.Proofs.Worker.Steps

/-! # A cycle has one unit

Whoever replaces the unit of a worker waits for the end of a cycle. So the actions of
a cycle are performed with one unit, the one that was built from the parameters of the
worker, and a fresh unit neither ends the loop of a worker that runs nor starts another
one beside it. Which unit is in use is told by a mark that it was built with.
-/

namespace EdgeAgent.Worker

variable {υ π α β : Type} [Craft υ π α]

/-! ## Statement -/

/-- A step from `s` to `t` by way of `u`: until there the unit is the old one, and it is
replaced then only if no cycle goes on. A loop that is still there is left alone, and
only one that is gone is followed by another. -/
structure Between (mark : υ → β) (now : Nat) (s u t : Worker υ π α) : Prop where
  unit : mark u.unit = mark s.unit ∧ u.param = s.param
  loop : ∀ instant, u.loop = .spawned instant → s.loop = .spawned instant
  replaced : mark t.unit = mark u.unit ∧ t.param = u.param ∨
    u.isCycling = false ∧ t.isCycling = false
  spared : Spared now u t

/-- The worker has one unit at a time, and one loop. -/
structure OneUnit [Timed υ] (mark : υ → β) (now : Nat) (s : Worker υ π α) : Prop where
  /-- The unit in use was built from the parameters of the worker. -/
  built : ∃ fresh instant w w', Craft.build s.param instant w = (.ok fresh, w') ∧
    mark fresh = mark s.unit
  /-- The action under way was begun with it. -/
  begun : ∀ since action rest ending course, s.loop = .cycling since action rest ending course →
    ∃ unit instant w, course = (Craft.perform unit action instant w).1 ∧ mark unit = mark s.unit
  /-- As long as a cycle goes on the unit stays, and the rest of the actions is performed. -/
  cycle : ∀ {t : Worker υ π α} {later : Nat}, Goes mark (·.isCycling = true) s now t later →
    mark t.unit = mark s.unit ∧ t.param = s.param ∧ t.pending <:+ s.pending
  /-- Whoever starts a worker whose loop is there starts none beside it. -/
  start : s.isAlive = true → s.start now = s
  /-- A reset of a worker that runs, whether or not a unit can be built, neither ends its
  loop nor starts it anew. -/
  reset : ∀ (param : Option π) starts w, s.isRunning = true →
    (s.act now w (.reset param starts)).1.loop = s.loop ∧
      (s.act now w (.reset param starts)).1.state = s.state ∧
        (s.act now w (.reset param starts)).1.stopping = s.stopping
  /-- Whatever befalls the worker, what it does by itself comes first. -/
  step : ∀ {t : Worker υ π α}, Step mark now s t →
    ∃ u, (Quiet mark s u ∨ Pace now s u) ∧ Handed now u t ∧ Between mark now s u t

/-! ## Units and their marks -/

/-- The unit comes from the current parameters, and so does the action under way. -/
structure Marked (mark : υ → β) (s : Worker υ π α) : Prop where
  built : ∃ fresh instant w w', Craft.build s.param instant w = (.ok fresh, w') ∧
    mark fresh = mark s.unit
  begun : ∀ since action rest ending course, s.loop = .cycling since action rest ending course →
    ∃ unit instant w, course = (Craft.perform unit action instant w).1 ∧ mark unit = mark s.unit

variable {mark : υ → β} {s t : Worker υ π α} {now : Nat}

theorem begun_of_not_cycling (h : s.isCycling = false) :
    ∀ since action rest ending course, s.loop = .cycling since action rest ending course →
      ∃ unit instant w, course = (Craft.perform unit action instant w).1 ∧
        mark unit = mark s.unit := by
  intro since action rest ending course hloop
  simp [isCycling, hloop] at h

theorem Quiet.marked (h : Quiet mark s t) (hs : s.Marked mark) : t.Marked mark := by
  refine ⟨?_, ?_⟩
  · rw [h.param, h.unit]
    exact hs.built
  · rw [h.unit]
    intro since action rest ending course hloop
    rcases h.loop with hsame | ⟨_, habsent⟩
    · exact hs.begun since action rest ending course (hsame.symm.trans hloop)
    · exact nomatch hloop.symm.trans habsent

theorem advance_param (s : Worker υ π α) (since : Nat) (rest : List α) (now : Nat) (w : World) :
    (s.advance since rest now w).param = s.param := by
  cases rest with
  | nil =>
      simp only [advance, sleep]
      split <;> rfl
  | cons action rest => rfl

theorem begun_advance (s : Worker υ π α) (since : Nat) (rest : List α) (now : Nat) (w : World) :
    ∀ started action others ending course,
      (s.advance since rest now w).loop = .cycling started action others ending course →
        ∃ unit instant w, course = (Craft.perform unit action instant w).1 ∧
          mark unit = mark s.unit := by
  intro started action others ending course hloop
  cases rest with
  | nil =>
      have hslept := isCycling_sleep s (s.period - (now - since)) now w
      simp only [advance] at hloop
      simp [isCycling, hloop] at hslept
  | cons first rest =>
      cases hloop
      exact ⟨s.unit, now, w, rfl, rfl⟩

theorem Marked.advance (hs : s.Marked mark) (since : Nat) (rest : List α) (now : Nat) (w : World) :
    (s.advance since rest now w).Marked mark := by
  refine ⟨?_, ?_⟩
  · rw [advance_param, (advance_frame s since rest now w).1]
    exact hs.built
  · rw [(advance_frame s since rest now w).1]
    exact begun_advance s since rest now w

variable [Timed υ]

theorem Marked.finish (hs : s.Marked mark) (hmark : Lasting mark) {since : Nat} {action : α}
    {rest : List α} {ending : Timer} {course : Course υ UnitError}
    (hloop : s.loop = .cycling since action rest ending course) (w : World) :
    mark (course.finish s.unit w).2.1 = mark s.unit := by
  obtain ⟨unit, instant, w', rfl, hunit⟩ := hs.begun since action rest ending course hloop
  exact hmark.perform unit action instant w' s.unit w hunit

omit [Timed υ] in
theorem Marked.idle (hs : s.Marked mark) (hparam : t.param = s.param)
    (hunit : mark t.unit = mark s.unit) (hcycling : t.isCycling = false) : t.Marked mark := by
  refine ⟨?_, begun_of_not_cycling hcycling⟩
  rw [hparam, hunit]
  exact hs.built

omit [Timed υ] in
theorem Marked.withUnit (hs : s.Marked mark) {unit : υ} (hunit : mark unit = mark s.unit) :
    ({ s with unit } : Worker υ π α).Marked mark := by
  refine ⟨?_, ?_⟩
  · simp only [hunit]
    exact hs.built
  · simp only [hunit]
    exact hs.begun

theorem Pace.marked (h : Pace now s t) (hmark : Lasting mark) (hs : s.Marked mark) :
    t.Marked mark ∧ mark t.unit = mark s.unit ∧ t.param = s.param := by
  -- A cycle that goes on does so with a unit of the same mark.
  have hadvance {v : Worker υ π α} (hv : v.Marked mark) (hunit : mark v.unit = mark s.unit)
      (hparam : v.param = s.param) (since : Nat) (rest : List α) (w : World) :
      (v.advance since rest now w).Marked mark ∧
        mark (v.advance since rest now w).unit = mark s.unit ∧
          (v.advance since rest now w).param = s.param := by
    refine ⟨hv.advance since rest now w, ?_, ?_⟩
    · rw [(advance_frame v since rest now w).1, hunit]
    · rw [advance_param, hparam]
  have hidle {v : Worker υ π α} (hunit : mark v.unit = mark s.unit) (hparam : v.param = s.param)
      (hcycling : v.isCycling = false) :
      v.Marked mark ∧ mark v.unit = mark s.unit ∧ v.param = s.param :=
    ⟨hs.idle hparam hunit hcycling, hunit, hparam⟩
  cases h with
  | wake instant w hloop =>
      simp only [Worker.wake, Worker.sleep]
      split
      · exact hidle rfl rfl rfl
      · split
        · exact hidle rfl rfl rfl
        · exact hidle rfl rfl rfl
  | leave => exact hidle rfl rfl rfl
  | wait => exact hidle rfl rfl rfl
  | enter timer w hloop hgoes hunit =>
      let v : Worker υ π α := { s with loop := .claiming now, claims := s.claims ++ [.cycle] }
      have hv : v.Marked mark := hs.idle rfl rfl rfl
      exact hadvance hv rfl rfl now s.actions w
  | begin since w hloop hunit => exact hadvance hs rfl rfl since s.actions w
  | @done since action rest ending course w w' unit hloop hfinish =>
      have hunit : mark unit = mark s.unit := by
        have hkept := hs.finish hmark hloop w
        rwa [hfinish] at hkept
      exact hadvance (hs.withUnit hunit) hunit rfl since rest w'
  | @endure since action rest ending course w w' unit e hloop hfinish hendured =>
      have hunit : mark unit = mark s.unit := by
        have hkept := hs.finish hmark hloop w
        rwa [hfinish] at hkept
      have hrecorded : (({ s with unit } : Worker υ π α).record action e).Marked mark := by
        obtain ⟨hbuilt, hbegun⟩ := hs.withUnit hunit
        exact ⟨hbuilt, hbegun⟩
      exact hadvance hrecorded hunit rfl since rest w'
  | @fail since action rest ending course w w' unit e hloop hfinish hfailed =>
      have hunit : mark unit = mark s.unit := by
        have hkept := hs.finish hmark hloop w
        rwa [hfinish] at hkept
      exact hidle hunit rfl rfl
  | @crash since action rest ending course w w' unit hloop hfinish =>
      have hunit : mark unit = mark s.unit := by
        have hkept := hs.finish hmark hloop w
        rwa [hfinish] at hkept
      exact hidle hunit rfl rfl

/-! ## A fresh unit in its place -/

omit [Craft υ π α] [Timed υ] in
theorem replace_param (s : Worker υ π α) (fresh : υ) (param : π) (starts : Bool) (now : Nat) :
    (s.replace fresh param starts now).param = param := by
  unfold replace start
  dsimp only
  split
  · rfl
  · split
    · split <;> rfl
    · rfl

omit [Timed υ] in
theorem Handed.marked (h : Handed now s t) (hs : s.Marked mark) : t.Marked mark := by
  cases h with
  | none => exact hs
  | start =>
      unfold Worker.start
      split
      · exact hs
      · exact hs.idle rfl rfl rfl
  | serve cs hcycling hbuilt =>
      refine (serveSwaps_keeps (P := fun s => s.isCycling = false ∧ s.Marked mark) hbuilt
        (fun fresh param starts hs hfresh => ?_) (fun _ hs => ?_) ⟨hcycling, hs⟩).2
      · obtain ⟨instant, w, w', hfresh⟩ := hfresh
        have hidle := isCycling_replace hs.1 fresh param starts now
        refine ⟨hidle, ⟨fresh, instant, w, w', ?_, ?_⟩, begun_of_not_cycling hidle⟩
        · rw [replace_param]
          exact hfresh
        · rw [replace_unit]
      · exact ⟨hs.1, hs.2.idle rfl rfl hs.1⟩

omit [Timed υ] in
theorem Handed.replaced (h : Handed now s t) (mark : υ → β) :
    mark t.unit = mark s.unit ∧ t.param = s.param ∨ s.isCycling = false ∧ t.isCycling = false := by
  cases h with
  | none => exact .inl ⟨rfl, rfl⟩
  | start =>
      unfold Worker.start
      split
      · exact .inl ⟨rfl, rfl⟩
      · exact .inl ⟨rfl, rfl⟩
  | serve cs hcycling hbuilt => exact .inr ⟨hcycling, isCycling_serveSwaps now cs hcycling⟩

/-! ## Steps and runs -/

theorem Step.between (hstep : Step mark now s t) (hmark : Lasting mark) (hsettled : s.Settled now)
    (hs : s.Marked mark) :
    ∃ u, (Quiet mark s u ∨ Pace now s u) ∧ Handed now u t ∧ Between mark now s u t ∧
      t.Marked mark := by
  obtain ⟨u, hown, hu, hhanded⟩ := hstep.parts hmark.turn hsettled
  have hspared := hhanded.spared hu.orderly.running
  refine ⟨u, hown, hhanded, ?_⟩
  rcases hown with hquiet | hpace
  · refine ⟨⟨⟨hquiet.unit, hquiet.param⟩, fun instant hloop => ?_, hhanded.replaced mark, hspared⟩,
      hhanded.marked (hquiet.marked hs)⟩
    rcases hquiet.loop with hsame | ⟨_, habsent⟩
    · exact hsame.symm.trans hloop
    · exact nomatch hloop.symm.trans habsent
  · obtain ⟨hmarked, hunit, hparam⟩ := hpace.marked hmark hs
    exact ⟨⟨⟨hunit, hparam⟩, fun instant hloop => (hpace.not_spawned instant hloop).elim,
      hhanded.replaced mark, hspared⟩, hhanded.marked hmarked⟩

omit [Timed υ] in
theorem Pace.pending (h : Pace now s t) (hs : s.isCycling = true) (ht : t.isCycling = true) :
    t.pending <:+ s.pending := by
  cases h with
  | wake _ _ hloop | leave _ hloop | wait _ hloop | enter _ _ hloop | begin _ _ hloop =>
      simp [isCycling, hloop] at hs
  | fail | crash => cases ht
  | done hloop =>
      rw [(advance_frame _ _ _ now _).2.2]
      simp only [Worker.pending, hloop]
      exact List.suffix_cons ..
  | endure hloop =>
      rw [(advance_frame _ _ _ now _).2.2]
      simp only [Worker.pending, hloop]
      exact List.suffix_cons ..

theorem Step.within (hstep : Step mark now s t) (hmark : Lasting mark) (hsettled : s.Settled now)
    (hmarked : s.Marked mark) (hs : s.isCycling = true) (ht : t.isCycling = true) :
    mark t.unit = mark s.unit ∧ t.param = s.param ∧ t.pending <:+ s.pending := by
  obtain ⟨u, hown, hhanded, hbetween, _⟩ := hstep.between hmark hsettled hmarked
  -- The cycle still goes on before the unit may go to others, so that it does not.
  have hu : u.isCycling = true ∧ mark t.unit = mark u.unit ∧ t.param = u.param := by
    rcases hbetween.replaced with hkept | ⟨_, hidle⟩
    · refine ⟨?_, hkept⟩
      cases hcycling : u.isCycling with
      | true => rfl
      | false =>
          have hidle : t.isCycling = false := by
            cases hhanded with
            | none => exact hcycling
            | start => exact isCycling_start hcycling now
            | serve cs => exact isCycling_serveSwaps now cs hcycling
          exact nomatch hidle.symm.trans ht
    · exact nomatch hidle.symm.trans ht
  obtain ⟨hcycling, hunit, hparam⟩ := hu
  have halive : u.isAlive = true := by
    cases hloop : u.loop <;> simp_all [isCycling, isAlive]
  have hpending : t.pending = u.pending := by
    simp only [Worker.pending, (hbetween.spared.alive halive).1]
  refine ⟨hunit.trans hbetween.unit.1, hparam.trans hbetween.unit.2, ?_⟩
  rw [hpending]
  rcases hown with hquiet | hpace
  · rcases hquiet.loop with hsame | ⟨_, habsent⟩
    · simp only [Worker.pending, hsame]
      exact List.suffix_refl _
    · simp [isCycling, habsent] at hcycling
  · exact hpace.pending hs hcycling

theorem Settled.reset (h : s.Settled now) (param : Option π) (starts : Bool) (w : World)
    (hrunning : s.isRunning = true) :
    (s.act now w (.reset param starts)).1.loop = s.loop ∧
      (s.act now w (.reset param starts)).1.state = s.state ∧
        (s.act now w (.reset param starts)).1.stopping = s.stopping := by
  simp only [act, Worker.reset]
  rcases hbuild : Craft.build (υ := υ) (param.getD s.param) now w with ⟨fresh | fresh, w'⟩
  · exact ⟨rfl, rfl, rfl⟩
  · rcases claim_cases h.first (.swap fresh (param.getD s.param) starts) now with
      ⟨_, hserved⟩ | ⟨_, hwaits⟩
    · simp [hserved, serveSwaps, replace_of_running hrunning]
    · simp [hwaits]

theorem InUse.marked [BEq α] (h : InUse mark s now) (hmark : Lasting mark) : s.Marked mark := by
  induction h with
  | made hmade =>
      obtain ⟨_, hloop, _, _, _, w, w', hbuild⟩ := hmade.spec
      refine ⟨⟨_, _, w, w', hmade.param ▸ hbuild, rfl⟩, ?_⟩
      simp [hloop]
  | later _ _ ih => exact ih
  | step hbefore hstep ih =>
      obtain ⟨_, _, _, _, ht⟩ := hstep.between hmark (hbefore.settled hmark.turn) ih
      exact ht

/-- All actions of a cycle are performed with one unit, which was built from the
parameters of the worker; it is replaced between cycles only, and never is a second
loop started beside one that is there. -/
theorem InUse.oneUnit [BEq α] (h : InUse mark s now) (hmark : Lasting mark) :
    OneUnit mark now s := by
  have hmarked := h.marked hmark
  have hsettled := h.settled hmark.turn
  refine ⟨hmarked.built, hmarked.begun, fun hgoes => ?_, fun halive => ?_,
    fun param starts w hrunning => hsettled.reset param starts w hrunning, fun hstep => ?_⟩
  · induction hgoes with
    | refl => exact ⟨rfl, rfl, List.suffix_refl _⟩
    | later _ _ ih => exact ih
    | step hbefore hstep hcycling ih =>
        have hreached := hbefore.inUse h
        obtain ⟨hunit, hparam, hpending⟩ := hstep.within hmark (hreached.settled hmark.turn)
          (hreached.marked hmark) hbefore.holds hcycling
        exact ⟨hunit.trans ih.1, hparam.trans ih.2.1, hpending.trans ih.2.2⟩
  · have hrunning := hsettled.orderly.isRunning_eq
    rw [Worker.start, hrunning, halive]
    rfl
  · obtain ⟨u, hown, hhanded, hbetween, _⟩ := hstep.between hmark hsettled hmarked
    exact ⟨u, hown, hhanded, hbetween⟩

/-! ## A reset in the middle of a cycle -/

theorem lasting_label : Lasting SimulatedUnit.label where
  perform unit action now w later w' _ := by
    simp only [Craft.perform, Course.lasting]
    split <;> rfl
  turn _ _ _ := rfl

/-- In the middle of a cycle someone comes to put another unit in place. -/
def awaitedClock : Worker SimulatedUnit SimulatedParam String :=
  (slowClock.act 0 slowWorld (.reset (some { clockParam with label := "second" }) true)).1

theorem inUse_awaitedClock : InUse SimulatedUnit.label awaitedClock 0 :=
  (inUse_slowClock SimulatedUnit.label).step
    (.act (.reset (some { clockParam with label := "second" }) true) slowWorld)

/-- The unit is the first one until the action ends, and then the other one. -/
theorem oneUnit_awaitedClock :
    Lasting SimulatedUnit.label ∧
      InUse SimulatedUnit.label awaitedClock 0 ∧ awaitedClock.isCycling = true ∧
      awaitedClock.awaitsSwap = true ∧ awaitedClock.unit.label = "first" ∧
      (awaitedClock.loopTurn (Duration.ofSeconds 60) slowWorld).1.unit.label = "second" ∧
      OneUnit SimulatedUnit.label 0 awaitedClock :=
  ⟨lasting_label, inUse_awaitedClock, by decide, by decide, by decide, by decide,
    inUse_awaitedClock.oneUnit lasting_label⟩

end EdgeAgent.Worker
