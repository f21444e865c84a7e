import EdgeAgent.Proofs.Clock.Turns
import EdgeAgent.Proofs.Worker.Healing
import EdgeAgent.Proofs.Worker.Stopping

/-! # A crew is stopped all at once

Every worker is asked to end before any of them takes another turn, and all are waited for
together. Those that are not in a cycle end at once, the others with their cycle, and nobody
is started anew in between. So the wait is as long as the longest of the cycles, if it is not
given up before.
-/

namespace EdgeAgent

variable {υ π α : Type} [Craft υ π α] [Timed υ]

namespace Crew

/-! ## Statement -/

/-- There is no worker of the name, or its loop is not there. -/
def isGone (c : Crew υ π α) (name : String) : Bool :=
  match c.workers.find? name with
  | some s => !s.isAlive
  | none => true

def stopAsked (t : Timeline (Crew υ π α)) : Timeline (Crew υ π α) :=
  t.act fun c _ w => (c.stop, w)

/-- How long the workers are waited for at most. -/
def stopSpan (t : Timeline (Crew υ π α)) : Nat :=
  Instant.endOfWait t.now t.part.stopTimeout - t.now

/-- The last instant at which an end counts. -/
def stopLimit (t : Timeline (Crew υ π α)) : Nat :=
  Instant.endOfWait t.now t.part.stopTimeout - 1

/-- There are no more turns until then than can be waited for. -/
def StopSettles (t : Timeline (Crew υ π α)) : Prop :=
  (stopAsked t).Settles (stopLimit t) hasEnded

/-- What a worker needs to end once it is asked to: nothing unless it is in a cycle, which
has to go on to its end then, however long that takes. -/
inductive Needs (t : Timeline (Crew υ π α)) (name : String) (s : Worker υ π α) : Nat → Prop
  | idle : s.wantsUnit = false → Needs t name s 0
  | cycle {span : Nat} : s.wantsUnit = true →
      ((stopAsked t).await (·.isGone name)).part.isGone name = true →
        ((stopAsked t).await (·.isGone name)).now = t.now + span → Needs t name s span

/-- What the stop of a crew comes to, whose workers need some spans to end. -/
structure StopsTogether (t : Timeline (Crew υ π α)) (needs : String → Nat) : Prop where
  /-- The wait lasts to the first whole millisecond at which the stop timeout is over. -/
  wait : t.now + t.part.stopTimeout < Instant.endOfTime →
    t.now + stopSpan t = Instant.tick (t.now + t.part.stopTimeout) ∧
      (1000000 ∣ t.now → 1000000 ∣ t.part.stopTimeout → stopSpan t = t.part.stopTimeout)
  /-- From the instant of the stop on every worker is asked to end. -/
  asked : (stopAsked t).now = t.now ∧ ∀ n name s,
    ((stopAsked t).turns n).part.workers.find? name = some s → s.stopping = true
  /-- Nobody is kept waiting by the others. -/
  onTime : ∀ n name s timer, ((stopAsked t).turns n).part.workers.find? name = some s →
    Timed.due s ((stopAsked t).turns n).now = some timer →
      ((stopAsked t).turns (n + 1)).now ≤ max ((stopAsked t).turns n).now timer.rings
  span : (awaitStop t).2.now =
    t.now + t.part.workers.keys.toFinset.sup fun name => min (stopSpan t) (needs name)
  answer : (awaitStop t).1 = true ↔ ∀ name ∈ t.part.workers.keys, needs name < stopSpan t
  running : ∀ name ∈ t.part.workers.keys,
    (awaitStop t).2.part.isRunning name = true ↔ stopSpan t < needs name

end Crew

/-! ## One worker -/

namespace Worker

variable {s t : Worker υ π α} {now : Nat}

/-- What a turn of the crew makes of a worker, if nobody waits to replace its unit. -/
inductive Turned (now : Nat) (s : Worker υ π α) : Worker υ π α → Prop
  | rest : Turned now s s
  | unit (u : υ) : Turned now s { s with unit := u }
  | loop {t : Worker υ π α} (cs : List (Claim υ π)) : Pace now s t →
      Turned now s { t with claims := cs }

theorem Settled.turned (h : s.Settled now) (hqueued : s.Queued) (w : World) :
    Turned now s (s.turn now w).1 := by
  unfold turn
  split
  case isFalse => exact .unit _
  case isTrue hfirst =>
      obtain ⟨t, hpace, hleft⟩ := h.loopTurn_left (Timer.ne_none_of_isFirst hfirst) w
      generalize (s.loopTurn now w).1 = u at hleft
      cases hleft with
      | kept => exact .loop t.claims hpace
      | released =>
          have hswaps : ∀ c ∈ t.claims.drop 1, c.isSwap = false := by
            intro c hc
            have hc := List.mem_of_mem_drop hc
            rcases hpace.claims with hclaims | hclaims
            · exact hqueued.no_swap c (hclaims ▸ hc)
            · rw [hclaims] at hc
              rcases List.mem_append.mp hc with hc | hc
              · exact hqueued.no_swap c hc
              · rw [List.mem_singleton.mp hc]
                rfl
          rw [release_of_no_swap hswaps]
          exact .loop _ hpace

omit [Timed υ] in
theorem Pace.gone (h : Pace now s t) (hstopping : s.stopping = true)
    (hwants : s.wantsUnit = false) : t.isAlive = false := by
  cases h with
  | wake instant w hloop =>
      unfold Worker.wake
      split
      · rfl
      · have hended := (sleep_of_stopping hstopping s.initialDelay now w).1
        simp [Worker.isAlive, hended]
  | leave => rfl
  | wait _ _ hgoes | enter _ _ _ hgoes => simp [hgoes] at hstopping
  | begin _ _ hloop | done hloop | endure hloop => simp [wantsUnit, hloop] at hwants
  | fail | crash => rfl

omit [Timed υ] in
theorem Turned.stopping (h : Turned now s t) : t.stopping = s.stopping := by
  cases h with
  | rest | unit => rfl
  | loop cs hpace => exact hpace.stopping

omit [Timed υ] in
theorem Turned.gone (h : Turned now s t) (hdead : s.isAlive = false) : t.isAlive = false := by
  cases h with
  | rest | unit => exact hdead
  | loop cs hpace => exact nomatch hdead.symm.trans hpace.isAlive

omit [Timed υ] in
theorem Turned.idle (h : Turned now s t) (hstopping : s.stopping = true)
    (hwants : s.wantsUnit = false) : t.wantsUnit = false := by
  cases h with
  | rest | unit => exact hwants
  | loop cs hpace => exact wantsUnit_of_not_isAlive (hpace.gone hstopping hwants)

end Worker

/-! ## The workers of a crew -/

namespace Crew

variable [BEq α] {c c' : Crew υ π α} {now : Nat} {t : Timeline (Crew υ π α)} {name : String}
  {s : Worker υ π α}

theorem Step.inUse_worker (h : Step now c c')
    (hc : ∀ name s, c.workers.find? name = some s → Worker.InUse Worker.unmarked s now)
    (hs : c'.workers.find? name = some s) : Worker.InUse Worker.unmarked s now := by
  have hact (d : Worker.Deed π) (w : World) {s : Worker υ π α}
      (hs : c.workers.find? name = some s) : Worker.InUse Worker.unmarked (s.act now w d).1 now :=
    (hc name s hs).step (.act d w)
  cases h with
  | add added param actions period delay w =>
      unfold Crew.add at hs
      split at hs
      · exact hc name s hs
      · rcases hnew : Worker.new (υ := υ) added param actions period delay now w with ⟨e | u, w'⟩
        · rw [hnew] at hs
          exact hc name s hs
        · rw [hnew] at hs
          dsimp only at hs
          rw [Table.find?_insert] at hs
          split at hs
          · exact Option.some.inj hs ▸ .made (.new c.stopTimeout hnew)
          · exact hc name s hs
  | start =>
      obtain ⟨u, hu, rfl⟩ := Option.map_eq_some_iff.mp (Table.find?_mapRows .. ▸ hs)
      exact hact .start {} hu
  | stop =>
      obtain ⟨u, hu, rfl⟩ := Option.map_eq_some_iff.mp (Table.find?_mapRows .. ▸ hs)
      exact hact .stop {} hu
  | confirmEnd =>
      obtain ⟨u, hu, rfl⟩ := Option.map_eq_some_iff.mp (Table.find?_mapRows .. ▸ hs)
      exact hact .confirmEnd {} hu
  | editPeriod edited period =>
      unfold Crew.editPeriod at hs
      split at hs
      · obtain ⟨u, hu, rfl⟩ := Option.map_eq_some_iff.mp (Table.find?_mapRows .. ▸ hs)
        split
        · exact hact (.setPeriod period) {} hu
        · exact hc name u hu
      · exact hc name s hs
  | heal w hfree =>
      rcases find?_heal c now w name with hkept | ⟨u, u', w₁, w₂, hu, _, hreset, hu', _⟩
      · exact hc name s (hkept ▸ hs)
      · obtain rfl := Option.some.inj (hu'.symm.trans hs)
        have hdone := hact (.reset none true) w₁ hu
        rwa [Worker.act, hreset] at hdone
  | visit visited u v hu hvisit =>
      rw [Table.find?_insert] at hs
      split at hs
      · obtain rfl := Option.some.inj hs
        cases hvisit with
        | borrow => exact (hc visited u hu).step (.act .borrow {})
        | work unit hlent => exact (hc visited u hu).step (.work unit hlent rfl)
        | giveBack => exact (hc visited u hu).step (.act .giveBack {})
        | withdraw first before after hclaims =>
            have hguest : (.guest : Worker.Claim υ π) ≠ .cycle := by simp
            exact (hc visited u hu).step (.withdraw first .guest before after hclaims hguest)
      · exact hc name s hs
  | turn w =>
      rcases find?_turn c now w name with hkept | ⟨u, hu, hu'⟩
      · exact hc name s (hkept ▸ hs)
      · obtain rfl := Option.some.inj (hu'.symm.trans hs)
        exact hact .turn w hu

omit [Craft υ π α] [Timed υ] [BEq α] in
theorem exists_worker (hname : name ∈ c.workers.keys) :
    ∃ s, c.workers.find? name = some s :=
  Option.isSome_iff_exists.mp (Table.mem_keys_iff.mp hname)

theorem InUse.worker (h : c.InUse now) (hs : c.workers.find? name = some s) :
    Worker.InUse Worker.unmarked s now := by
  induction h generalizing name s with
  | empty => cases hs
  | later _ hle ih => exact (ih hs).later hle
  | step _ hstep ih => exact hstep.inUse_worker (fun _ _ => ih) hs

theorem InUse.settled (h : c.InUse now) (hs : c.workers.find? name = some s) : s.Settled now :=
  (h.worker hs).settled fun _ _ _ => rfl

theorem InUse.take {instant : Nat} (h : t.part.InUse t.now) :
    (t.take instant).part.InUse (t.take instant).now :=
  (h.later (Nat.le_max_left t.now instant)).step (.turn t.count.world)

theorem InUse.turns (h : t.part.InUse t.now) (n : Nat) :
    (t.turns n).part.InUse (t.turns n).now :=
  Timeline.turns_keep (P := fun t : Timeline (Crew υ π α) => t.part.InUse t.now)
    (fun _ _ => InUse.take) h n

theorem InUse.turned (h : t.part.InUse t.now) (n : Nat)
    (hs : (t.turns n).part.workers.find? name = some s) : ∃ now u,
      (t.turns (n + 1)).part.workers.find? name = some u ∧ s.Turned now u := by
  rw [Timeline.turns]
  cases hstep : (t.turns n).step? none with
  | none => exact ⟨(t.turns n).now, s, hs, .rest⟩
  | some u =>
      obtain ⟨timer, _, _, rfl⟩ := Timeline.step?_eq_some_iff.mp hstep
      have hlater := (h.turns n).later (Nat.le_max_left _ timer.rings)
      refine ⟨max (t.turns n).now timer.rings, ?_⟩
      rcases find?_turn (t.turns n).part _ (t.turns n).count.world name with hkept | ⟨v, hv, hv'⟩
      · exact ⟨s, hkept.trans hs, .rest⟩
      · obtain rfl := Option.some.inj (hv.symm.trans hs)
        have hregular := hlater.regular name v hv
        exact ⟨_, hv', (hlater.settled hv).turned hregular.queued _⟩

/-! ## While the crew is waited for -/

theorem InUse.stopAsked (h : t.part.InUse t.now) :
    (stopAsked t).part.InUse (stopAsked t).now := h.step .stop

omit [Craft υ π α] [Timed υ] [BEq α] in
theorem find?_stopAsked (t : Timeline (Crew υ π α)) (name : String) :
    (stopAsked t).part.workers.find? name = (t.part.workers.find? name).map (·.stop) :=
  Table.find?_mapRows ..

omit [BEq α] in
theorem exists_of_turns {n : Nat} (hs : ((stopAsked t).turns n).part.workers.find? name = some s) :
    ∃ u, t.part.workers.find? name = some u := by
  cases hu : t.part.workers.find? name with
  | some u => exact ⟨u, rfl⟩
  | none =>
      have hnone : ((stopAsked t).turns n).part.workers.find? name = none := by
        refine Timeline.turns_keep (P := fun t : Timeline (Crew υ π α) =>
          t.part.workers.find? name = none) (fun t instant ht => ?_) ?_ n
        · rcases find?_turn t.part (max t.now instant) t.count.world name with hkept | ⟨v, hv, _⟩
          · exact hkept.trans ht
          · cases ht.symm.trans hv
        · rw [find?_stopAsked, hu, Option.map_none]
      cases hnone.symm.trans hs

theorem InUse.asked (h : t.part.InUse t.now) (hs : t.part.workers.find? name = some s) (n : Nat) :
    ∃ u, ((Crew.stopAsked t).turns n).part.workers.find? name = some u ∧
      u.stopping = true ∧ (s.wantsUnit = false → u.wantsUnit = false) := by
  induction n with
  | zero =>
      exact ⟨s.stop, by rw [Timeline.turns, find?_stopAsked, hs, Option.map_some], rfl, id⟩
  | succ n ih =>
      obtain ⟨u, hu, hstopping, hidle⟩ := ih
      obtain ⟨now, v, hv, hturned⟩ := h.stopAsked.turned n hu
      exact ⟨v, hv, hturned.stopping.trans hstopping,
        fun hwants => hturned.idle hstopping (hidle hwants)⟩

theorem InUse.stopping_turns (h : t.part.InUse t.now) {n : Nat}
    (hs : ((Crew.stopAsked t).turns n).part.workers.find? name = some s) : s.stopping = true := by
  obtain ⟨u, hu⟩ := exists_of_turns hs
  obtain ⟨v, hv, hstopping, _⟩ := h.asked hu n
  obtain rfl := Option.some.inj (hv.symm.trans hs)
  exact hstopping

omit [Craft υ π α] [Timed υ] [BEq α] in
theorem isGone_eq (hs : c.workers.find? name = some s) : c.isGone name = !s.isAlive := by
  rw [isGone, hs]

theorem InUse.lasts (h : t.part.InUse t.now) (hname : name ∈ t.part.workers.keys) :
    (Crew.stopAsked t).Lasts (·.isGone name) := by
  obtain ⟨s, hs⟩ := exists_worker hname
  intro n hgone
  obtain ⟨u, hu, _⟩ := h.asked hs n
  obtain ⟨_, v, hv, hturned⟩ := h.stopAsked.turned n hu
  dsimp only at hgone ⊢
  rw [isGone_eq hu, Bool.not_eq_true'] at hgone
  rw [isGone_eq hv, hturned.gone hgone]
  rfl

omit [Craft υ π α] [Timed υ] [BEq α] in
theorem hasEnded_iff :
    c.hasEnded = true ↔ ∀ name s, c.workers.find? name = some s → s.isAlive = false := by
  simp only [hasEnded, Table.values, List.all_map, List.all_eq_true, Function.comp_apply,
    Bool.not_eq_true', Prod.forall, Table.find?_eq_some_iff]

theorem InUse.hasEnded_iff (h : t.part.InUse t.now) (n : Nat) :
    ((Crew.stopAsked t).turns n).part.hasEnded = true ↔
      ∀ name ∈ t.part.workers.keys.toFinset,
        ((Crew.stopAsked t).turns n).part.isGone name = true := by
  rw [Crew.hasEnded_iff]
  constructor
  · intro hended name hname
    obtain ⟨s, hs⟩ := exists_worker (List.mem_toFinset.mp hname)
    obtain ⟨u, hu, _⟩ := h.asked hs n
    rw [isGone_eq hu, hended name u hu]
    rfl
  · intro hgone name u hu
    obtain ⟨s, hs⟩ := exists_of_turns hu
    have hname : name ∈ t.part.workers.keys := Table.mem_keys_iff.mpr (hs ▸ rfl)
    have hthere := hgone name (List.mem_toFinset.mpr hname)
    rwa [isGone_eq hu, Bool.not_eq_true'] at hthere

omit [BEq α] in
theorem exists_due (hs : c.workers.find? name = some s) {timer : Timer}
    (hdue : Timed.due s now = some timer) :
    ∃ first, Timed.due c now = some first ∧ first.rings ≤ timer.rings := by
  let due (s : Worker υ π α) : Option Timer := Timed.due s now
  have hdue : due s = some timer := hdue
  obtain ⟨found, hfound, hrings⟩ := Timer.rings_firstRow (Table.find?_eq_some_iff.mp hs) hdue
  have hfirst : Timed.due c now = (Timer.firstRow due c.workers.rows).map (·.2) := rfl
  exact ⟨found.2, by rw [hfirst, hfound, Option.map_some], hrings⟩

omit [BEq α] in
theorem now_turns_succ_le {n : Nat} (hs : (t.turns n).part.workers.find? name = some s)
    {timer : Timer} (hdue : Timed.due s (t.turns n).now = some timer) :
    (t.turns (n + 1)).now ≤ max (t.turns n).now timer.rings := by
  obtain ⟨first, hfirst, hle⟩ := exists_due hs hdue
  have hstep : (t.turns n).step? none = some ((t.turns n).take first.rings) :=
    Timeline.step?_eq_some_iff.mpr ⟨first, hfirst, rfl, rfl⟩
  rw [Timeline.turns_succ hstep]
  exact max_le_max_left _ hle

theorem InUse.comesAfter (h : t.part.InUse t.now) (hnow : t.now ≤ stopLimit t)
    (hsettles : StopSettles t) (hs : t.part.workers.find? name = some s) {span : Nat}
    (hneeds : Needs t name s span) :
    (Crew.stopAsked t).ComesAfter (·.isGone name) span := by
  have hname : name ∈ t.part.workers.keys := Table.mem_keys_iff.mpr (hs ▸ rfl)
  cases hneeds with
  | cycle _ hgone hspan => exact Timeline.comesAfter_of_await hgone hspan
  | idle hwants =>
      refine Timeline.Settles.comesAfter_zero hsettles (fun n hended => ?_) hnow fun n hthere => ?_
      · exact (h.hasEnded_iff n).mp hended name (List.mem_toFinset.mpr hname)
      · obtain ⟨u, hu, hstopping, hidle⟩ := h.asked hs n
        rw [isGone_eq hu, Bool.not_eq_false'] at hthere
        have hsettled := (h.stopAsked.turns n).settled hu
        obtain ⟨timer, hdue, hrings⟩ := hsettled.due_of_stopping hthere hstopping (hidle hwants)
        obtain ⟨first, hfirst, hle⟩ := exists_due hu hdue
        exact ⟨first, hfirst, hle.trans hrings⟩

/-! ## The end of the wait -/

def stopWaited (t : Timeline (Crew υ π α)) : Timeline (Crew υ π α) :=
  (Crew.stopAsked t).awaitAtMost hasEnded t.part.stopTimeout

def stopTurns (t : Timeline (Crew υ π α)) : Timeline (Crew υ π α) :=
  (Crew.stopAsked t).run (some (stopLimit t)) hasEnded t.patience

omit [Craft υ π α] [Timed υ] [BEq α] in
theorem endOfWait_eq (htimeout : 0 < t.part.stopTimeout) :
    Instant.endOfWait t.now t.part.stopTimeout = t.now + stopSpan t :=
  (Nat.add_sub_of_le (Instant.lt_endOfWait t.now htimeout).le).symm

omit [BEq α] in
theorem stopWaited_spec (htimeout : 0 < t.part.stopTimeout) :
    (stopWaited t).part = (stopTurns t).part ∧
      (stopWaited t).now = if (stopTurns t).part.hasEnded then (stopTurns t).now
        else t.now + stopSpan t :=
  endOfWait_eq htimeout ▸ (Crew.stopAsked t).awaitAtMost_spec hasEnded htimeout

theorem InUse.stopTurns_spec (h : t.part.InUse t.now) (htimeout : 0 < t.part.stopTimeout)
    (hsettles : StopSettles t) {needs : String → Nat}
    (hneeds : ∀ name s, t.part.workers.find? name = some s → Needs t name s (needs name)) :
    (∀ name ∈ t.part.workers.keys,
        (stopTurns t).part.isGone name = true ↔ needs name < stopSpan t) ∧
      (if (stopTurns t).part.hasEnded then (stopTurns t).now else t.now + stopSpan t) =
        t.now + t.part.workers.keys.toFinset.sup fun name => min (stopSpan t) (needs name) := by
  have hspan : 0 < stopSpan t := Nat.sub_pos_of_lt (Instant.lt_endOfWait t.now htimeout)
  have hlimit : stopLimit t = t.now + stopSpan t - 1 := by rw [stopLimit, endOfWait_eq htimeout]
  have hcomes (name : String) (hname : name ∈ t.part.workers.keys.toFinset) :
      (Crew.stopAsked t).ComesAfter (·.isGone name) (needs name) := by
    obtain ⟨s, hs⟩ := exists_worker (List.mem_toFinset.mp hname)
    exact h.comesAfter (by omega) hsettles hs (hneeds name s hs)
  have hsettled : (Crew.stopAsked t).Settles (t.now + stopSpan t - 1) hasEnded :=
    hlimit ▸ hsettles
  obtain ⟨hgone, hclock⟩ := hsettled.awaitAtMost (p := fun name c => isGone c name) hspan
    h.hasEnded_iff (fun name hname => h.lasts (List.mem_toFinset.mp hname)) hcomes
  rw [stopTurns, hlimit]
  exact ⟨fun name hname => hgone name (List.mem_toFinset.mpr hname), hclock⟩

theorem InUse.isRunning_iff (h : c.InUse now) (hs : c.workers.find? name = some s) :
    c.confirmEnd.2.isRunning name = true ↔ s.isAlive = true := by
  have hfind : c.confirmEnd.2.workers.find? name =
      (c.workers.find? name).map (·.confirmEnd.2) := Table.find?_mapRows ..
  have henduring := (h.regular name s hs).queued.enduring
  rw [isRunning, hfind, hs, Option.map_some]
  unfold Worker.confirmEnd
  cases halive : s.isAlive with
  | true => simp [Worker.isRunning, halive, henduring halive]
  | false => simp [Worker.isRunning, Worker.isAlive]

omit [Craft υ π α] [Timed υ] [BEq α] in
theorem stopSpan_spec (htold : t.now + t.part.stopTimeout < Instant.endOfTime) :
    t.now + stopSpan t = Instant.tick (t.now + t.part.stopTimeout) ∧
      (1000000 ∣ t.now → 1000000 ∣ t.part.stopTimeout → stopSpan t = t.part.stopTimeout) := by
  have hend : stopSpan t = Instant.tick (t.now + t.part.stopTimeout) - t.now := by
    rw [stopSpan, Instant.endOfWait, Instant.wait_of_lt htold]
  have hle := Instant.le_tick (t.now + t.part.stopTimeout)
  refine ⟨by omega, fun hnow hwhole => ?_⟩
  rw [hend, Instant.tick]
  omega

/-- The workers of a crew are stopped together: the wait for them is the longest of what
they need, or its limit, and those that need longer go on. -/
theorem InUse.stopsTogether (h : t.part.InUse t.now) (htimeout : 0 < t.part.stopTimeout)
    (hsettles : StopSettles t) {needs : String → Nat}
    (hneeds : ∀ name s, t.part.workers.find? name = some s →
      Needs t name s (needs name) ∧ needs name ≠ stopSpan t) :
    StopsTogether t needs := by
  obtain ⟨hgone, hclock⟩ := h.stopTurns_spec htimeout hsettles
    fun name s hs => (hneeds name s hs).1
  obtain ⟨n, hn⟩ := (Crew.stopAsked t).exists_reaches (some (stopLimit t)) hasEnded t.patience
  have hturns : stopTurns t = (Crew.stopAsked t).turns n := hn.eq
  obtain ⟨hpart, hafter⟩ := stopWaited_spec htimeout
  have hanswer : (awaitStop t).1 = (stopWaited t).part.hasEnded := rfl
  have hleft : (awaitStop t).2.part = (stopWaited t).part.confirmEnd.2 := rfl
  have hreached : (awaitStop t).2.now = (stopWaited t).now := rfl
  refine ⟨stopSpan_spec, ⟨rfl, fun _ _ _ hs => h.stopping_turns hs⟩,
    fun _ _ _ _ hs => now_turns_succ_le hs, ?_, ?_, fun name hname => ?_⟩
  · rw [hreached, hafter]
    exact hclock
  · rw [hanswer, hpart, hturns, h.hasEnded_iff n, ← hturns]
    simp only [List.mem_toFinset]
    exact forall₂_congr hgone
  · obtain ⟨s, hs⟩ := exists_worker hname
    obtain ⟨u, hu, _⟩ := h.asked hs n
    have hne := (hneeds name s hs).2
    have hthere := hgone name hname
    rw [hturns, isGone_eq hu, Bool.not_eq_true'] at hthere
    rw [hleft, hpart, hturns, (h.stopAsked.turns n).isRunning_iff hu, ← Bool.not_eq_false, hthere]
    omega

omit [BEq α] in
theorem needs_of_wantsUnit {span : Nat} (hs : t.part.workers.find? name = some s)
    (hwants : (t.part.workers.find? name).any (·.wantsUnit) = true)
    (hgone : ((Crew.stopAsked t).await (·.isGone name)).part.isGone name = true)
    (hspan : ((Crew.stopAsked t).await (·.isGone name)).now = t.now + span) :
    Needs t name s span := by
  rw [hs] at hwants
  exact .cycle hwants hgone hspan

/-! ## A clock in a cycle, a bell that sleeps, and a gong that was not started -/

def addLate (c : Crew SimulatedUnit SimulatedParam String) :
    Crew SimulatedUnit SimulatedParam String :=
  (c.add "bell" ⟨"bell", "first", ["Tick"]⟩ ["Tick"] (Duration.ofSeconds 20)
    (.given (Duration.ofSeconds 5)) 0 {}).2.1

def rung (c : Crew SimulatedUnit SimulatedParam String) (w : World) :
    Crew SimulatedUnit SimulatedParam String := (c.turn 0 w).1

theorem InUse.rung {c : Crew SimulatedUnit SimulatedParam String} (h : c.InUse 0) (w : World) :
    (Crew.rung c w).InUse 0 := h.step (.turn w)

/-- The clock has begun its cycle. -/
def belfryTimeline : Timeline (Crew SimulatedUnit SimulatedParam String) where
  part :=
    let asleep := rung ((addLate (addPart {} "clock")).start 0) Worker.slowWorld
    rung (rung (addPart asleep "gong") Worker.slowWorld) Worker.slowWorld
  world := Worker.slowWorld
  patience := 8

def belfryNeeds (name : String) : Nat := if name = "clock" then Duration.ofSeconds 60 else 0

theorem inUse_belfryTimeline : belfryTimeline.part.InUse belfryTimeline.now := by
  have hadded : (addLate (addPart {} "clock")).InUse 0 :=
    ((InUse.empty _ 0).step (.add ..)).step (.add ..)
  have hasleep := (hadded.step .start).rung Worker.slowWorld
  have hall : (addPart _ "gong").InUse 0 := hasleep.step (.add ..)
  exact (hall.rung Worker.slowWorld).rung Worker.slowWorld

/-- The clock needs a minute and is waited for ten seconds, the others have ended. -/
theorem stopsTogether_belfryTimeline :
    belfryTimeline.part.InUse belfryTimeline.now ∧ StopSettles belfryTimeline ∧
      belfryTimeline.part.isRunning "bell" = true ∧ (awaitStop belfryTimeline).1 = false ∧
      (awaitStop belfryTimeline).2.now = Duration.ofSeconds 10 ∧
      StopsTogether belfryTimeline belfryNeeds := by
  have hsettles : StopSettles belfryTimeline := .inr (by decide)
  refine ⟨inUse_belfryTimeline, hsettles, by decide, by decide, by decide, ?_⟩
  refine InUse.stopsTogether inUse_belfryTimeline (by decide) hsettles ?_
  intro name s hs
  have hidle : ∀ row ∈ belfryTimeline.part.workers.rows,
      row.1 ≠ "clock" → row.2.wantsUnit = false := by decide
  by_cases hname : name = "clock"
  · subst hname
    exact ⟨needs_of_wantsUnit hs (by decide) (by decide) (by decide), by decide⟩
  · rw [belfryNeeds, if_neg hname]
    exact ⟨.idle (hidle _ (Table.find?_eq_some_iff.mp hs) hname), by decide⟩

/-! ## A wait that does not end with the stop timeout -/

def hastyTrack : Simulation.UnitTrack :=
  ⟨["Tick"], ∅, [("Tick", ⟨[⟨Duration.ofMillis 3, .done⟩]⟩)], [], []⟩

def hastyWorld : World where
  simulation := { units := Table.empty.insert "clock" hastyTrack }

/-- The clock is in a cycle of three milliseconds, and is given one and a half. -/
def hastyTimeline : Timeline (Crew SimulatedUnit SimulatedParam String) where
  part :=
    let started := (addPart { stopTimeout := 1500000 } "clock").start 0
    rung (rung started hastyWorld) hastyWorld
  world := hastyWorld
  patience := 8

/-- The clock is waited for two milliseconds, longer than it is given. -/
theorem outwaited_hastyTimeline :
    hastyTimeline.part.InUse hastyTimeline.now ∧ StopSettles hastyTimeline ∧
      hastyTimeline.part.workers.keys = ["clock"] ∧
      (∀ s, hastyTimeline.part.workers.find? "clock" = some s →
        Needs hastyTimeline "clock" s (Duration.ofMillis 3)) ∧
      hastyTimeline.part.stopTimeout < Duration.ofMillis 3 ∧
      (awaitStop hastyTimeline).1 = false ∧
      (awaitStop hastyTimeline).2.now = Duration.ofMillis 2 ∧
      (awaitStop hastyTimeline).2.now ≠
        hastyTimeline.now + min hastyTimeline.part.stopTimeout (Duration.ofMillis 3) := by
  have hinUse : hastyTimeline.part.InUse hastyTimeline.now := by
    have hclock : (addPart { stopTimeout := 1500000 } "clock").InUse 0 :=
      (InUse.empty _ 0).step (.add ..)
    exact ((hclock.step .start).rung _).rung _
  have hneeds : ∀ s, hastyTimeline.part.workers.find? "clock" = some s →
      Needs hastyTimeline "clock" s (Duration.ofMillis 3) :=
    fun s hs => needs_of_wantsUnit hs (by decide) (by decide) (by decide)
  exact ⟨hinUse, .inr (by decide), by decide, hneeds, by decide, by decide, by decide, by decide⟩

end Crew
end EdgeAgent
