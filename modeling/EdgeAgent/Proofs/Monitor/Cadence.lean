import EdgeAgent.Proofs.Monitor.Diary

/-! # The cadence of a station

The first pass of a loop comes half a period after the latest pass that anybody has asked
for, or after the station was set up, but not before the loop was started. Every other one
comes when a period is over that began with the pass before, or at the end of that pass if
it took longer; the period is the one in force at that end. It does not matter to the loop
whether a pass has succeeded. Once the loop is asked to end no further pass begins.
-/

namespace EdgeAgent.Station

variable {μ : Type}

/-! ## Statement -/

/-- When the latest pass began or was asked for, or else when the station was set up. -/
def latest (made : Nat) : List Event → Nat
  | [] => made
  | .asked instant :: _ | .begun instant :: _ => instant
  | _ :: es => latest made es

/-- When the next pass of the loop is due, by what has happened so far, the last first. -/
def deadline? (made : Nat) : List Event → Option Nat
  | .looked instant period :: es => some (max instant (latest made es + period / 2))
  | .ended instant period :: .begun since :: _ => some (max instant (since + period))
  | _ => none

/-- Passes of loops one after the other, each of them on time. -/
inductive InCadence (made : Nat) : List Event → Prop
  | nothing : InCadence made []
  | asked {es : List Event} (instant : Nat) : InCadence made es → goingOn? es = none →
      (∀ e ∈ es.head?, e.instant ≤ instant) → InCadence made (.asked instant :: es)
  | started {es : List Event} (instant : Nat) : InCadence made es → goingOn? es = none →
      (∀ e ∈ es.head?, e.instant ≤ instant) → InCadence made (.started instant :: es)
  /-- The loop looks at once. -/
  | looked {es : List Event} (instant period : Nat) : InCadence made (.started instant :: es) →
      InCadence made (.looked instant period :: .started instant :: es)
  | begun {es : List Event} {deadline : Nat} (instant : Nat) : InCadence made es →
      deadline? made es = some deadline → (∀ e ∈ es.head?, e.instant ≤ instant) →
        (deadline < Instant.endOfTime → instant = Instant.tick deadline) →
          InCadence made (.begun instant :: es)
  | ended {es : List Event} {since : Nat} (instant period : Nat) : InCadence made es →
      goingOn? es = some since → (∀ e ∈ es.head?, e.instant ≤ instant) →
        InCadence made (.ended instant period :: es)
  | stopped {es : List Event} (instant : Nat) : InCadence made es →
      (∀ e ∈ es.head?, e.instant ≤ instant) → InCadence made (.stopped instant :: es)

/-! ## Passes that are on time -/

variable {made : Nat}

theorem InCadence.tail {e : Event} {es : List Event} (h : InCadence made (e :: es)) :
    InCadence made es := by
  cases h <;> assumption

theorem InCadence.of_deadline {es : List Event} {deadline : Nat} (h : InCadence made es)
    (hdeadline : deadline? made es = some deadline) :
    ∃ first second older, es = first :: second :: older ∧ (∀ instant, first ≠ .stopped instant) ∧
      (second.isStarted = true ∨ second.isBegun = true) := by
  cases h with
  | looked => exact ⟨_, _, _, rfl, by simp, .inl rfl⟩
  | @ended es since instant period _ hgoes =>
      cases es with
      | nil => cases hdeadline
      | cons last older =>
          cases last with
          | begun since => exact ⟨_, _, _, rfl, by simp, .inr rfl⟩
          | asked | started | looked | ended | stopped => cases hdeadline
  | nothing | asked | started | begun | stopped => cases hdeadline

/-- Once the loop was asked to end, no pass begins before it is started again. -/
theorem InCadence.begun_stopped {later es : List Event} {instant : Nat}
    (h : InCadence made (later ++ .stopped instant :: es))
    (hnever : ∀ e ∈ later, e.isStarted = false) : ∀ e ∈ later, e.isBegun = false := by
  induction later with
  | nil =>
      intro e he
      cases he
  | cons last later ih =>
      have hbefore := ih h.tail fun e he => hnever e (List.mem_cons_of_mem _ he)
      intro e he
      rcases List.mem_cons.mp he with rfl | he
      · cases e with
        | asked | started | looked | ended | stopped => rfl
        | begun begun =>
            cases h with
            | begun _ hevents hdeadline =>
                -- What makes the pass due has happened since then, or the end of the loop
                -- was asked for in between.
                obtain ⟨first, second, older, hes, hfirst, hsecond⟩ :=
                  hevents.of_deadline hdeadline
                cases later with
                | nil => exact absurd (List.cons.inj hes).1.symm (hfirst instant)
                | cons x later =>
                    have hrest := (List.cons.inj hes).2
                    cases later with
                    | nil =>
                        simp [← (List.cons.inj hrest).1, Event.isStarted, Event.isBegun] at hsecond
                    | cons y later =>
                        rw [← (List.cons.inj hrest).1] at hsecond
                        simp [hbefore y (by simp), hnever y (by simp)] at hsecond
      · exact hbefore e he

/-! ## Where the loop stands -/

/-- The loop has at most one pass, and shares the monitor with nobody who wants another. -/
def Ordered (s : Station μ) : Prop :=
  match s.loop with
  | .passing => s.runners = [.loop]
  | .spawned _ | .asleep _ => s.runners = []
  | .absent | .ended => ∀ r ∈ s.runners, r = .outside

/-- What has happened last, told by where the loop is. -/
def Matches (made now : Nat) (s : Station μ) (es : List Event) : Prop :=
  match s.loop with
  | .absent | .ended => goingOn? es = none
  | .spawned instant => goingOn? es = none ∧ instant = now ∧
      (s.stopping = false → es.head? = some (.started instant))
  | .asleep wake => goingOn? es = none ∧
      (s.stopping = false → ∃ deadline, deadline? made es = some deadline ∧ now ≤ wake.rings ∧
        (deadline < Instant.endOfTime → wake.rings = Instant.tick deadline))
  | .passing => goingOn? es = some s.lastUpdate ∧
      (s.stopping = false → es.head? = some (.begun s.lastUpdate))

/-- What holds of a station and its events, from one step to the next. -/
structure Kept (made now : Nat) (s : Station μ) (es : List Event) : Prop where
  events : InCadence made es
  past : ∀ e ∈ es.head?, e.instant ≤ now
  last : s.lastUpdate = latest made es
  since : s.lastUpdate ≤ now
  ordered : Ordered s
  matching : Matches made now s es

variable {now : Nat} {s t : Station μ} {es : List Event}

theorem Kept.of_dead (hdead : s.isRunning = false) (hevents : InCadence made es)
    (hpast : ∀ e ∈ es.head?, e.instant ≤ now) (hlast : s.lastUpdate = latest made es)
    (hsince : s.lastUpdate ≤ now) (hothers : ∀ r ∈ s.runners, r = .outside)
    (hidle : goingOn? es = none) : Kept made now s es := by
  refine ⟨hevents, hpast, hlast, hsince, ?_, ?_⟩
  · unfold Ordered
    rcases loop_of_dead hdead with hloop | hloop <;> simpa only [hloop] using hothers
  · unfold Matches
    rcases loop_of_dead hdead with hloop | hloop <;> simpa only [hloop] using hidle

theorem Kept.dead (h : Kept made now s es) (hdead : s.isRunning = false) :
    goingOn? es = none ∧ ∀ r ∈ s.runners, r = .outside := by
  have hordered := h.ordered
  have hmatches := h.matching
  unfold Ordered at hordered
  unfold Matches at hmatches
  rcases loop_of_dead hdead with hloop | hloop
  · rw [hloop] at hordered hmatches
    exact ⟨hmatches, hordered⟩
  · rw [hloop] at hordered hmatches
    exact ⟨hmatches, hordered⟩

theorem Matches.isPassing (h : Matches made now s es) :
    (goingOn? es).isSome = s.isPassing := by
  unfold Matches at h
  unfold Station.isPassing
  cases hloop : s.loop with
  | absent | ended =>
      rw [hloop] at h
      simp [h]
  | spawned | asleep | passing =>
      rw [hloop] at h
      simp [h.1]

theorem Matches.noteEnd_eq (h : Matches made now s es) (hloop : t.loop = s.loop) (period : Nat) :
    noteEnd t now period es = es := by
  have hsame : t.isPassing = s.isPassing := by
    unfold Station.isPassing
    rw [hloop]
  unfold noteEnd
  rw [h.isPassing, hsame]
  simp

theorem Kept.congr (h : Kept made now s es) (hspared : s.Spared t) : Kept made now t es := by
  obtain ⟨hloop, hstopping, hlast, hrunners⟩ := hspared
  refine ⟨h.events, h.past, hlast.trans h.last, hlast ▸ h.since, ?_, ?_⟩
  · unfold Ordered
    rw [hloop, hrunners]
    exact h.ordered
  · unfold Matches
    rw [hloop, hstopping, hlast]
    exact h.matching

theorem Kept.stays (h : Kept made now s es) (hspared : s.Spared t) (period : Nat) :
    Kept made now t (noteEnd t now period es) := by
  rw [h.matching.noteEnd_eq hspared.loop]
  exact h.congr hspared

theorem rings_of_deadline (deadline : Nat) (rank : Rank) (h : now ≤ deadline) :
    now ≤ (Timer.after now (deadline - now) rank).rings ∧
      (deadline < Instant.endOfTime →
        (Timer.after now (deadline - now) rank).rings = Instant.tick deadline) := by
  have hle := Instant.le_endOfWait now (deadline - now)
  have hend : now + (deadline - now) = deadline := by omega
  rw [Timer.rings_after]
  refine ⟨by omega, fun htold => ?_⟩
  rw [Instant.endOfWait, Instant.wait_of_lt (hend.symm ▸ htold), hend]

variable [Monitor μ] {w w' : World}

/-! ## Passes -/

theorem Kept.finish_loop (h : Kept made now s es) {p : Pass μ} {v : Verdict μ}
    (hloop : s.loop = .passing) (hpass : s.underWay = some p) (hends : Ends s p now w v t w') :
    Kept made now t (noteEnd t now s.period es) := by
  have hordered := h.ordered
  have hmatches := h.matching
  simp only [Ordered, Matches, hloop] at hordered hmatches
  obtain ⟨hgoes, hbegun⟩ := hmatches
  rw [runners_of_pass hpass] at hordered
  obtain ⟨hrunner, hnobody⟩ := List.cons.inj hordered
  have hfreed := hends.freed
  have hempty : t.runners = [] := by
    rw [runners_of_free hfreed.underWay, hfreed.waiting]
    exact hnobody
  have hended : InCadence made (.ended now s.period :: es) :=
    h.events.ended now s.period hgoes h.past
  have hnoted : t.isPassing = false → noteEnd t now s.period es = .ended now s.period :: es := by
    intro hover
    simp [noteEnd, hgoes, hover]
  have hlast : t.lastUpdate = latest made (.ended now s.period :: es) :=
    hfreed.lastUpdate.trans h.last
  have hsince : t.lastUpdate ≤ now := hfreed.lastUpdate ▸ h.since
  have hgone : t.loop = .ended → Kept made now t (noteEnd t now s.period es) := by
    intro hdead
    rw [hnoted (by simp [Station.isPassing, hdead])]
    exact .of_dead (by simp [isRunning, hdead]) hended (by simp) hlast hsince (by simp [hempty]) rfl
  by_cases hcrashed : v = .crashed
  · subst hcrashed
    exact hgone (hends.loop_of_crash hrunner)
  · have hresumed := hends.loop_eq hcrashed
    simp only [resumption, hrunner] at hresumed
    cases hstopping : s.stopping with
    | true =>
        rw [hstopping] at hresumed
        exact hgone hresumed
    | false =>
        rw [hstopping] at hresumed
        simp only [Bool.false_eq_true, if_false] at hresumed
        rw [hnoted (by simp [Station.isPassing, hresumed])]
        refine ⟨hended, by simp, hlast, hsince, ?_, ?_⟩
        · simp [Ordered, hresumed, hempty]
        · obtain ⟨older, rfl⟩ := List.head?_eq_some_iff.mp (hbegun hstopping)
          have hspan :
              s.period - (now - s.lastUpdate) = max now (s.lastUpdate + s.period) - now := by
            have hle := h.since
            omega
          rw [hspan] at hresumed
          simp only [Matches, hresumed]
          exact ⟨rfl, fun _ => ⟨_, rfl, rings_of_deadline _ _ (Nat.le_max_left ..)⟩⟩

theorem Kept.finish_outside (h : Kept made now s es) {p : Pass μ} {v : Verdict μ}
    (hdead : s.isRunning = false) (hpass : s.underWay = some p) (hends : Ends s p now w v t w') :
    Kept made now t (noteEnd t now s.period es) := by
  obtain ⟨hidle, hothers⟩ := h.dead hdead
  rw [runners_of_pass hpass] at hothers
  have hfreed := hends.freed
  have hsame := hends.loop_of_outside (hothers _ List.mem_cons_self)
  rw [h.matching.noteEnd_eq hsame]
  refine .of_dead ?_ h.events h.past (hfreed.lastUpdate.trans h.last)
    (hfreed.lastUpdate ▸ h.since) ?_ hidle
  · rwa [isRunning, hsame]
  · rw [runners_of_free hfreed.underWay, hfreed.waiting]
    exact fun r hr => hothers r (List.mem_cons_of_mem _ hr)

theorem Kept.finish (h : Kept made now s es) {p : Pass μ} {v : Verdict μ}
    (hpass : s.underWay = some p) (hends : Ends s p now w v t w') :
    Kept made now t (noteEnd t now s.period es) := by
  cases hloop : s.loop with
  | passing => exact h.finish_loop hloop hpass hends
  | absent | ended => exact h.finish_outside (by simp [isRunning, hloop]) hpass hends
  | spawned | asleep =>
      -- Nobody has the monitor while the loop waits.
      have hordered := h.ordered
      simp only [Ordered, hloop, runners_of_pass hpass] at hordered
      cases hordered

theorem Kept.served (h : Kept made now s es) {v : Option (Verdict μ)}
    (hserved : Served now s w v t w') : Kept made now t (noteEnd t now s.period es) := by
  cases hserved with
  | nobody => exact h.stays ⟨rfl, rfl, rfl, rfl⟩ _
  | begin hfree hwaiting => exact h.stays (begin_spared hfree hwaiting) _
  | finish hpass hends => exact h.finish hpass hends
  | whole hfree hwaiting hcourse hends =>
      exact (h.congr (begin_spared hfree hwaiting)).finish rfl hends

/-! ## Turns -/

omit [Monitor μ] in
theorem Kept.first (h : Kept made now s es) (hfirst : s.loopIsFirst now = true) :
    goingOn? es = none ∧ s.runners = [] := by
  have hordered := h.ordered
  have hmatches := h.matching
  unfold Ordered at hordered
  unfold Matches at hmatches
  rcases loop_of_first hfirst with ⟨instant, hloop⟩ | ⟨timer, hloop⟩
  · rw [hloop] at hordered hmatches
    exact ⟨hmatches.1, hordered⟩
  · rw [hloop] at hordered hmatches
    exact ⟨hmatches.1, hordered⟩

omit [Monitor μ] in
theorem Kept.look (h : Kept made now s es) {instant : Nat} (hloop : s.loop = .spawned instant)
    (hgoes : s.stopping = false) (rank : Rank) :
    Kept made now
      { s with loop := .asleep (.after now (s.period / 2 - (now - s.lastUpdate)) rank) }
      (.looked now s.period :: es) := by
  have hordered := h.ordered
  have hmatches := h.matching
  simp only [Ordered, Matches, hloop] at hordered hmatches
  obtain ⟨-, rfl, hstarted⟩ := hmatches
  obtain ⟨older, rfl⟩ := List.head?_eq_some_iff.mp (hstarted hgoes)
  have hspan : s.period / 2 - (instant - s.lastUpdate) =
      max instant (s.lastUpdate + s.period / 2) - instant := by
    have hle := h.since
    omega
  refine ⟨h.events.looked instant s.period, by simp, h.last, h.since, hordered, ?_⟩
  refine ⟨rfl, fun _ => ⟨max instant (s.lastUpdate + s.period / 2), ?_, ?_⟩⟩
  · rw [h.last]
    rfl
  · rw [hspan]
    exact rings_of_deadline _ _ (Nat.le_max_left ..)

omit [Monitor μ] in
theorem Kept.wake (h : Kept made now s es) {wake : Timer} (hloop : s.loop = .asleep wake)
    (hgoes : s.stopping = false) (hrings : wake.rings ≤ now) :
    now = wake.rings ∧
      Kept made now (({ s with loop := .passing } : Station μ).wanted .loop now)
        (.begun now :: es) := by
  have hordered := h.ordered
  have hmatches := h.matching
  simp only [Ordered, Matches, hloop] at hordered hmatches
  obtain ⟨-, hdeadline⟩ := hmatches
  obtain ⟨deadline, hdeadline, hle, htold⟩ := hdeadline hgoes
  have hnow : now = wake.rings := by omega
  have hbegun := h.events.begun now hdeadline h.past fun hlt => hnow.trans (htold hlt)
  refine ⟨hnow, hbegun, by simp, rfl, Nat.le_refl now, ?_, rfl, fun _ => rfl⟩
  have hrunners : s.runners ++ [.loop] = [.loop] := by rw [hordered, List.nil_append]
  simpa [Ordered, wanted, runners, Claim.runner?] using hrunners

theorem Kept.turn (h : Kept made now s es) {v : Option (Verdict μ)} (hturn : Turn now s w v t w')
    (hdue : s.loopIsFirst now = true →
      ∀ timer, s.loopDue now = some timer → timer.rings ≤ now) :
    Kept made now t (noteEnd t now s.period
      (if s.loopIsFirst now then noteLoop s now es else es)) := by
  cases hturn with
  | leave hfirst hstopping =>
      obtain ⟨hidle, hnobody⟩ := h.first hfirst
      have hnone : noteEnd { s with loop := .ended } now s.period es = es := by
        simp [noteEnd, hidle]
      have hothers : ∀ r ∈ ({ s with loop := .ended } : Station μ).runners, r = .outside := by
        intro r hr
        have hr : r ∈ s.runners := hr
        rw [hnobody] at hr
        cases hr
      rw [if_pos hfirst, noteLoop, if_pos hstopping, hnone]
      exact .of_dead rfl h.events h.past h.last h.since hothers hidle
  | look hfirst hgoes hloop =>
      have hnoted : noteLoop s now es = .looked now s.period :: es := by
        simp [noteLoop, hgoes, hloop]
      rw [if_pos hfirst, hnoted]
      exact h.look hloop hgoes w.rank
  | @wake timer v t w' hfirst hgoes hloop hserved =>
      have hnoted : noteLoop s now es = .begun now :: es := by
        simp [noteLoop, hgoes, hloop]
      have hrings := hdue hfirst timer (by simp [loopDue, hloop, hgoes])
      rw [if_pos hfirst, hnoted]
      exact (h.wake hloop hgoes hrings).2.served hserved
  | serve hfirst hserved =>
      rw [if_neg (ne_true_of_eq_false hfirst)]
      exact h.served hserved

/-! ## What others do -/

theorem Kept.ask (h : Kept made now s es) (hdead : s.isRunning = false) (w : World) :
    Kept made now (s.request .outside now w).1 (.asked now :: es) := by
  obtain ⟨hidle, hothers⟩ := h.dead hdead
  have hmore : ∀ r ∈ (s.wanted .outside now).runners, r = .outside := by
    intro r hr
    have hr : r ∈ s.runners ++ [.outside] := by
      simpa [wanted, runners, Claim.runner?] using hr
    rcases List.mem_append.mp hr with hr | hr
    · exact hothers r hr
    · exact List.mem_singleton.mp hr
  have hwanted : Kept made now (s.wanted .outside now) (.asked now :: es) :=
    .of_dead hdead (h.events.asked now hidle h.past) (by simp) rfl (Nat.le_refl now) hmore rfl
  have hnone : noteEnd (s.request .outside now w).1 now s.period (.asked now :: es) =
      .asked now :: es := by
    simp [noteEnd, goingOn?]
  obtain ⟨v, hserved⟩ := s.request_served .outside now w
  rw [← hnone]
  exact hwanted.served hserved

omit [Monitor μ] in
theorem Kept.start (h : Kept made now s es) (hawaited : s.isAwaited = false) :
    Kept made now (s.start now)
      (if !s.enabled || s.isRunning then es else .started now :: es) := by
  unfold Station.start
  split
  case isTrue => exact h
  case isFalse hstarts =>
      have hdead : s.isRunning = false := by simp_all
      obtain ⟨hidle, hothers⟩ := h.dead hdead
      have hnobody : s.runners = [] := by
        apply List.eq_nil_iff_forall_not_mem.mpr
        intro r hr
        exact notMem_runners_of_awaited hawaited (hothers r hr ▸ hr)
      exact ⟨h.events.started now hidle h.past, by simp, h.last, h.since, hnobody, rfl, rfl,
        fun _ => rfl⟩

omit [Monitor μ] in
theorem Kept.stop (h : Kept made now s es) : Kept made now s.stop (.stopped now :: es) := by
  refine ⟨h.events.stopped now h.past, by simp, h.last, h.since, h.ordered, ?_⟩
  have hmatches := h.matching
  unfold Matches at hmatches ⊢
  cases hloop : s.loop with
  | absent | ended => simpa [Station.stop, hloop, goingOn?] using hmatches
  | spawned | asleep | passing =>
      rw [hloop] at hmatches
      simp [Station.stop, hloop, goingOn?, hmatches]

omit [Monitor μ] in
theorem Kept.later (h : Kept made now s es) {later : Nat} (hle : now ≤ later)
    (hbound : ∀ timer, s.loopDue now = some timer → later ≤ timer.rings) :
    Kept made later s es := by
  refine ⟨h.events, fun e he => Nat.le_trans (h.past e he) hle, h.last,
    Nat.le_trans h.since hle, h.ordered, ?_⟩
  have hmatches := h.matching
  unfold Matches at hmatches ⊢
  cases hloop : s.loop with
  | absent | ended | passing =>
      rw [hloop] at hmatches
      exact hmatches
  | spawned instant =>
      rw [hloop] at hmatches
      obtain ⟨hidle, rfl, hstarted⟩ := hmatches
      have hlater := hbound (.woken instant) (by simp [loopDue, hloop])
      simp only [Timer.woken] at hlater
      exact ⟨hidle, by omega, hstarted⟩
  | asleep wake =>
      rw [hloop] at hmatches
      obtain ⟨hidle, hdeadline⟩ := hmatches
      refine ⟨hidle, fun hgoes => ?_⟩
      obtain ⟨deadline, htold, _, hrings⟩ := hdeadline hgoes
      exact ⟨deadline, htold, hbound wake (by simp [loopDue, hloop, hgoes]), hrings⟩

end EdgeAgent.Station
