import EdgeAgent.Monitor.Station

/-! # Passes

A station does one thing at a time: its loop leaves, goes to sleep or wakes up, or someone
who wants the monitor is served. In one turn one pass ends at most, and it is told here
what that makes of the monitor, the fragment, the slot and the loop.
-/

namespace EdgeAgent.Station

variable {μ : Type}

/-- How a pass ends. -/
inductive Verdict (μ : Type) where
  /-- What the monitor knew then was written, and the fragment was handed over. -/
  | published (monitor : μ) (fragment : Payload)
  /-- What the monitor knew then could not be written, or not all of it. -/
  | brokenOff (monitor : μ)
  | failed
  | crashed

def resumption (s : Station μ) (runner : Runner) (now : Nat) (rank : Rank) : Loop :=
  match runner with
  | .outside => s.loop
  | .loop =>
    if s.stopping then .ended else .asleep (.after now (s.period - (now - s.lastUpdate)) rank)

/-- The station after a pass that did not crash, and after which the monitor, the fragment
and the slot are these. -/
def passed (s : Station μ) (p : Pass μ) (now : Nat) (rank : Rank) (monitor : μ)
    (fragment : Payload) (slot : Slot) : Station μ :=
  { s with
    monitor, fragment, slot
    underWay := none
    lastDuration := some (now - p.requested)
    loop := s.resumption p.runner now rank }

variable [Monitor μ]

/-- A pass ends with a verdict. -/
inductive Ends (s : Station μ) (p : Pass μ) (now : Nat) (w : World) :
    Verdict μ → Station μ → World → Prop
  | publish {m : μ} {w' : World} {fragment : Payload} :
      p.course.finish s.monitor w = (.done, m, w') →
        Monitor.populate m s.fragment = (none, fragment) →
          Ends s p now w (.published m fragment) (s.passed p now w'.rank m {} ⟨some fragment⟩) w'
  | breakOff {m : μ} {w' : World} {e : MonitorError} {fragment : Payload} :
      p.course.finish s.monitor w = (.done, m, w') →
        Monitor.populate m s.fragment = (some e, fragment) →
          Ends s p now w (.brokenOff m) (s.passed p now w'.rank m fragment s.slot) w'
  | fail {m : μ} {w' : World} {e : MonitorError} :
      p.course.finish s.monitor w = (.failed e, m, w') →
        Ends s p now w .failed (s.passed p now w'.rank m s.fragment s.slot) w'
  | crash {m : μ} {w' : World} {loop : Loop} (w'' : World) :
      p.course.finish s.monitor w = (.crashed, m, w') →
        (p.runner = .outside → loop = s.loop) → (p.runner = .loop → loop = .ended) →
          Ends s p now w .crashed { s with monitor := m, underWay := none, loop } w''

theorem finish_ends (s : Station μ) (p : Pass μ) (now : Nat) (w : World) :
    ∃ v, Ends s p now w v (s.finish p now w).1 (s.finish p now w).2 := by
  unfold finish
  rcases hfinish : p.course.finish s.monitor w with ⟨outcome, m, w'⟩
  cases outcome with
  | crashed =>
      cases hrunner : p.runner with
      | loop => exact ⟨_, .crash w' hfinish (by simp [hrunner]) fun _ => rfl⟩
      | outside => exact ⟨_, .crash _ hfinish (fun _ => rfl) (by simp [hrunner])⟩
  | failed e =>
      have hends : Ends s p now w .failed (s.passed p now w'.rank m s.fragment s.slot) w' :=
        .fail hfinish
      unfold passed resumption at hends
      cases hrunner : p.runner <;> rw [hrunner] at hends <;> exact ⟨_, hends⟩
  | done =>
      rcases hwrite : Monitor.populate m s.fragment with ⟨e | e, fragment⟩
      · have hends : Ends s p now w (.published m fragment)
            (s.passed p now w'.rank m {} ⟨some fragment⟩) w' :=
          .publish hfinish hwrite
        unfold passed resumption at hends
        cases hrunner : p.runner <;> rw [hrunner] at hends <;>
          simpa [report, publish, Slot.publish, rest, hwrite] using ⟨_, hends⟩
      · have hends : Ends s p now w (.brokenOff m)
            (s.passed p now w'.rank m fragment s.slot) w' :=
          .breakOff hfinish hwrite
        unfold passed resumption at hends
        cases hrunner : p.runner <;> rw [hrunner] at hends <;>
          simpa [report, rest, hwrite] using ⟨_, hends⟩

theorem Ends.underWay_eq {s t : Station μ} {p : Pass μ} {now : Nat} {w w' : World} {v : Verdict μ}
    (h : Ends s p now w v t w') (other : Option (Pass μ)) :
    Ends { s with underWay := other } p now w v t w' := by
  cases h with
  | publish hfinish hwrite => exact .publish hfinish hwrite
  | breakOff hfinish hwrite => exact .breakOff hfinish hwrite
  | fail hfinish => exact .fail hfinish
  | crash _ hfinish houtside hloop => exact .crash _ hfinish houtside hloop

/-! ## Who is served -/

/-- What becomes of those who want the monitor: at most one of them is served. -/
inductive Served (now : Nat) (s : Station μ) (w : World) :
    Option (Verdict μ) → Station μ → World → Prop
  | nobody : Served now s w none s w
  /-- A pass begins that takes a while. -/
  | begin {p : Pass μ} {waiting : List Claim} : s.underWay = none →
      s.waiting = .pass p.runner p.requested :: waiting →
        p.course = (Monitor.update s.monitor now w).1 →
          Served now s w none { s with waiting, underWay := some p }
            (Monitor.update s.monitor now w).2
  | finish {p : Pass μ} {v : Verdict μ} {t : Station μ} {w' : World} : s.underWay = some p →
      Ends s p now w v t w' → Served now s w (some v) t w'
  /-- A pass begins, and is over at once. -/
  | whole {p : Pass μ} {waiting : List Claim} {v : Verdict μ} {t : Station μ} {w' : World} :
      s.underWay = none → s.waiting = .pass p.runner p.requested :: waiting →
        p.course = (Monitor.update s.monitor now w).1 →
          Ends { s with waiting, underWay := some p } p now (Monitor.update s.monitor now w).2 v t
            w' → Served now s w (some v) t w'

theorem beginNext_served (s : Station μ) (now : Nat) (w : World) :
    ∃ v, Served now s w v (s.beginNext now w).1 (s.beginNext now w).2 := by
  unfold beginNext
  split
  case h_1 runner requested waiting hfree hwaiting =>
      rcases hupdate : Monitor.update s.monitor now w with ⟨course, w'⟩
      have hcourse : course = (Monitor.update s.monitor now w).1 := by rw [hupdate]
      have hworld : w' = (Monitor.update s.monitor now w).2 := by rw [hupdate]
      dsimp only
      split
      · obtain ⟨v, hends⟩ := finish_ends { s with waiting } ⟨runner, requested, _, course⟩ now w'
        rw [hworld] at hends ⊢
        exact ⟨some v, .whole hfree hwaiting hcourse (hends.underWay_eq _)⟩
      · rw [hworld]
        exact ⟨none, .begin hfree hwaiting hcourse⟩
  case h_2 => exact ⟨none, .nobody⟩

theorem passTurn_served (s : Station μ) (now : Nat) (w : World) :
    ∃ v, Served now s w v (s.passTurn now w).1 (s.passTurn now w).2 := by
  unfold passTurn
  split
  case h_1 p hpass =>
      split
      · obtain ⟨v, hends⟩ := finish_ends s p now w
        exact ⟨some v, .finish hpass hends⟩
      · exact ⟨none, .nobody⟩
  case h_2 => exact beginNext_served s now w

omit [Monitor μ] in
def wanted (s : Station μ) (runner : Runner) (now : Nat) : Station μ :=
  { s with lastUpdate := now, waiting := s.waiting ++ [.pass runner now] }

theorem request_served (s : Station μ) (runner : Runner) (now : Nat) (w : World) :
    ∃ v, Served now (s.wanted runner now) w v (s.request runner now w).1
      (s.request runner now w).2 := by
  unfold request
  dsimp only
  split
  · exact beginNext_served (s.wanted runner now) now w
  · exact ⟨none, .nobody⟩

/-! ## Turns -/

omit [Monitor μ] in
def loopIsFirst (s : Station μ) (now : Nat) : Bool :=
  Timer.isFirst (s.loopDue now) (s.passDue now)

/-- In its turn a station lets its loop go on, or serves someone. -/
inductive Turn (now : Nat) (s : Station μ) (w : World) :
    Option (Verdict μ) → Station μ → World → Prop
  | leave : s.loopIsFirst now = true → s.stopping = true →
      Turn now s w none { s with loop := .ended } w
  | look {instant : Nat} : s.loopIsFirst now = true → s.stopping = false →
      s.loop = .spawned instant →
        Turn now s w none
          { s with loop := .asleep (.after now (s.period / 2 - (now - s.lastUpdate)) w.rank) } w
  | wake {timer : Timer} {v : Option (Verdict μ)} {t : Station μ} {w' : World} :
      s.loopIsFirst now = true → s.stopping = false → s.loop = .asleep timer →
        Served now (({ s with loop := .passing } : Station μ).wanted .loop now) w v t w' →
          Turn now s w v t w'
  | serve {v : Option (Verdict μ)} {t : Station μ} {w' : World} : s.loopIsFirst now = false →
      Served now s w v t w' → Turn now s w v t w'

omit [Monitor μ] in
theorem loop_of_first {s : Station μ} {now : Nat} (hfirst : s.loopIsFirst now = true) :
    (∃ instant, s.loop = .spawned instant) ∨ ∃ timer, s.loop = .asleep timer := by
  have hdue := Timer.ne_none_of_isFirst hfirst
  unfold loopDue at hdue
  cases hloop : s.loop with
  | spawned instant => exact .inl ⟨instant, rfl⟩
  | asleep timer => exact .inr ⟨timer, rfl⟩
  | absent | passing | ended => simp [hloop] at hdue

theorem turn_of_first {s : Station μ} {now : Nat} (hfirst : s.loopIsFirst now = true) (w : World) :
    s.turn now w = s.loopTurn now w := if_pos hfirst

theorem turn_of_not_first {s : Station μ} {now : Nat} (hfirst : s.loopIsFirst now = false)
    (w : World) : s.turn now w = s.passTurn now w := if_neg (ne_true_of_eq_false hfirst)

theorem turn_turn (s : Station μ) (now : Nat) (w : World) :
    ∃ v, Turn now s w v (s.turn now w).1 (s.turn now w).2 := by
  cases hfirst : s.loopIsFirst now with
  | false =>
      obtain ⟨v, hserved⟩ := passTurn_served s now w
      rw [turn_of_not_first hfirst]
      exact ⟨v, .serve hfirst hserved⟩
  | true =>
      rw [turn_of_first hfirst]
      by_cases hstopping : s.stopping = true
      · have hleft : s.loopTurn now w = ({ s with loop := .ended }, w) := if_pos hstopping
        rw [hleft]
        exact ⟨none, .leave hfirst hstopping⟩
      · have hgoes : s.stopping = false := by simpa using hstopping
        rcases loop_of_first hfirst with ⟨instant, hloop⟩ | ⟨timer, hloop⟩
        · have hlooked : s.loopTurn now w = ({ s with
              loop := .asleep (.after now (s.period / 2 - (now - s.lastUpdate)) w.rank) }, w) := by
            simp [loopTurn, hstopping, hloop]
          rw [hlooked]
          exact ⟨none, .look hfirst hgoes hloop⟩
        · have hwoken : s.loopTurn now w =
              ({ s with loop := .passing } : Station μ).request .loop now w := by
            simp [loopTurn, hstopping, hloop]
          obtain ⟨v, hserved⟩ := request_served { s with loop := .passing } .loop now w
          rw [hwoken]
          exact ⟨v, .wake hfirst hgoes hloop hserved⟩

/-! ## What is left behind -/

omit [Monitor μ] in
/-- The monitor, the fragment and the slot are as they were. -/
structure Untouched (s t : Station μ) : Prop where
  monitor : t.monitor = s.monitor
  fragment : t.fragment = s.fragment
  slot : t.slot = s.slot

omit [Monitor μ] in
theorem Untouched.trans {s t u : Station μ} (h : s.Untouched t) (h' : t.Untouched u) :
    s.Untouched u :=
  ⟨h'.monitor.trans h.monitor, h'.fragment.trans h.fragment, h'.slot.trans h.slot⟩

/-- What becomes of the monitor, the fragment and the slot. -/
def Leaves (s : Station μ) : Option (Verdict μ) → Station μ → Prop
  | none, t => s.Untouched t
  | some (.published m fragment), t =>
    t.monitor = m ∧ Monitor.populate m s.fragment = (none, fragment) ∧ t.fragment = {} ∧
      t.slot = ⟨some fragment⟩
  | some (.brokenOff m), t =>
    t.monitor = m ∧ (∃ e, Monitor.populate m s.fragment = (some e, t.fragment)) ∧ t.slot = s.slot
  | some .failed, t | some .crashed, t => t.fragment = s.fragment ∧ t.slot = s.slot

variable {s t u : Station μ} {now : Nat} {w w' : World}

theorem Untouched.leaves {v : Option (Verdict μ)} (h : s.Untouched u) (hleaves : u.Leaves v t) :
    s.Leaves v t := by
  cases v with
  | none => exact h.trans hleaves
  | some v => cases v <;> simpa only [Leaves, h.fragment, h.slot] using hleaves

theorem Ends.leaves {p : Pass μ} {v : Verdict μ} (h : Ends s p now w v t w') :
    s.Leaves (some v) t := by
  cases h with
  | publish hfinish hwrite => exact ⟨rfl, hwrite, rfl, rfl⟩
  | breakOff hfinish hwrite => exact ⟨rfl, ⟨_, hwrite⟩, rfl⟩
  | fail hfinish => exact ⟨rfl, rfl⟩
  | crash _ hfinish => exact ⟨rfl, rfl⟩

omit [Monitor μ] in
/-- After a pass the monitor is free, and those who wait for it still do. -/
structure Freed (s t : Station μ) : Prop where
  underWay : t.underWay = none
  waiting : t.waiting = s.waiting
  stopping : t.stopping = s.stopping
  period : t.period = s.period
  lastUpdate : t.lastUpdate = s.lastUpdate

theorem Ends.freed {p : Pass μ} {v : Verdict μ} (h : Ends s p now w v t w') : s.Freed t := by
  cases h <;> exact ⟨rfl, rfl, rfl, rfl, rfl⟩

/-- However a pass ends that does not crash, the loop goes on in the same way. -/
theorem Ends.loop_eq {p : Pass μ} {v : Verdict μ} (h : Ends s p now w v t w')
    (hv : v ≠ .crashed) : t.loop = s.resumption p.runner now w'.rank := by
  cases h with
  | publish | breakOff | fail => rfl
  | crash => exact absurd rfl hv

theorem Ends.slot_of_failed {p : Pass μ} {v : Verdict μ} (h : Ends s p now w v t w')
    (hv : v = .failed ∨ ∃ m, v = .brokenOff m) : t.slot = s.slot := by
  rcases hv with rfl | ⟨m, rfl⟩
  · exact h.leaves.2
  · exact h.leaves.2.2

theorem Ends.loop_of_crash {p : Pass μ} (h : Ends s p now w .crashed t w')
    (hrunner : p.runner = .loop) : t.loop = .ended := by
  cases h with
  | crash _ hfinish houtside hloop => exact hloop hrunner

theorem Ends.loop_of_outside {p : Pass μ} {v : Verdict μ} (h : Ends s p now w v t w')
    (hrunner : p.runner = .outside) : t.loop = s.loop := by
  cases h with
  | publish | breakOff | fail => simp [passed, resumption, hrunner]
  | crash _ hfinish houtside hloop => exact houtside hrunner

theorem Served.leaves {v : Option (Verdict μ)} (h : Served now s w v t w') : s.Leaves v t := by
  cases h with
  | nobody | begin => exact ⟨rfl, rfl, rfl⟩
  | finish hpass hends => exact hends.leaves
  | @whole p waiting v t w' hfree hwaiting hcourse hends =>
      have hsame : s.Untouched { s with waiting, underWay := some p } := ⟨rfl, rfl, rfl⟩
      exact hsame.leaves hends.leaves

/-! ## Operations -/

/-- In these operations of a station passes begin and end. -/
inductive Operation where
  | turn
  /-- A pass is asked for from outside. -/
  | request

def operate (s : Station μ) (o : Operation) (now : Nat) (w : World) : Station μ × World :=
  match o with
  | .turn => s.turn now w
  | .request => s.request .outside now w

/-- What happens in an operation. -/
def Acts (now : Nat) (s : Station μ) (w : World) (v : Option (Verdict μ)) (t : Station μ)
    (w' : World) : Prop :=
  Turn now s w v t w' ∨ Served now (s.wanted .outside now) w v t w'

theorem operate_acts (s : Station μ) (o : Operation) (now : Nat) (w : World) :
    ∃ v, Acts now s w v (s.operate o now w).1 (s.operate o now w).2 := by
  cases o with
  | turn =>
      obtain ⟨v, hturn⟩ := turn_turn s now w
      exact ⟨v, .inl hturn⟩
  | request =>
      obtain ⟨v, hserved⟩ := request_served s .outside now w
      exact ⟨v, .inr hserved⟩

theorem Acts.served {v : Option (Verdict μ)} (h : Acts now s w v t w') :
    v = none ∧ s.Untouched t ∧ t.underWay = s.underWay ∧ w' = w ∨
      ∃ u : Station μ, s.Untouched u ∧ u.underWay = s.underWay ∧ Served now u w v t w' := by
  rcases h with hturn | hserved
  · cases hturn with
    | leave | look => exact .inl ⟨rfl, ⟨rfl, rfl, rfl⟩, rfl, rfl⟩
    | wake hfirst hgoes hloop hserved =>
        let u := ({ s with loop := .passing } : Station μ).wanted .loop now
        exact .inr ⟨u, ⟨rfl, rfl, rfl⟩, rfl, hserved⟩
    | serve hfirst hserved => exact .inr ⟨s, ⟨rfl, rfl, rfl⟩, rfl, hserved⟩
  · exact .inr ⟨s.wanted .outside now, ⟨rfl, rfl, rfl⟩, rfl, hserved⟩

theorem Acts.leaves {v : Option (Verdict μ)} (h : Acts now s w v t w') : s.Leaves v t := by
  rcases h.served with ⟨rfl, hsame, _⟩ | ⟨u, hsame, _, hserved⟩
  · exact hsame
  · exact hsame.leaves hserved.leaves

end EdgeAgent.Station
