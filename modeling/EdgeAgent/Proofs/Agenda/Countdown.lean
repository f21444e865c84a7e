import EdgeAgent.Proofs.Agenda.Usage

/-! # Countdowns are exact

However an agenda is used, what remains of an action is the countdown that began
when it came, or when it last ran, less the time since then. Only time beyond the
greatest countdown is lost between one look and the next, and no countdown leaves
its range before the agenda is that old.
-/

namespace EdgeAgent.Agenda

variable {α : Type}

namespace Mark

/-- What remains at an instant of the countdown that began here, given what was
skipped by then. -/
def remaining (m : Mark α) (instant skipped : Nat) : Int :=
  m.base - ((instant : Int) - m.instant) + ((skipped : Int) - m.skipped)

end Mark

namespace Usage

def latest? (s : Usage α) (id : String) : Option (Mark α) := s.marks.find? (·.action.id = id)

/-- The countdown of an action is the one of its last record. -/
def Exact (s : Usage α) (instant skipped : Nat) (x : Action α) : Prop :=
  ∃ m, s.latest? x.id = some m ∧ s.born ≤ m.instant ∧ m.instant ≤ instant ∧
    m.skipped ≤ skipped ∧ x.remaining = m.remaining instant skipped

theorem exact_lessen {s : Usage α} {x : Action α}
    (h : s.Exact s.agenda.counted s.skipped x) (hcounted : s.agenda.counted ≤ s.now) :
    s.Exact s.now s.skipping (x.lessen (s.now - s.agenda.counted)) := by
  obtain ⟨m, hlatest, hborn, hinstant, hskipped, hremaining⟩ := h
  refine ⟨m, hlatest, hborn, Nat.le_trans hinstant hcounted, ?_, ?_⟩
  · exact Nat.le_add_right_of_le hskipped
  · simp only [Action.lessen, hremaining, Mark.remaining, Action.countdown, skipping]
    omega

theorem Exact.keep {s t : Usage α} {x : Action α} {instant skipped : Nat} {m : Mark α}
    (h : s.Exact instant skipped x) (hborn : t.born = s.born) (hmarks : t.marks = m :: s.marks)
    (hother : m.action.id ≠ x.id) : t.Exact instant skipped x := by
  obtain ⟨m', hlatest, hfacts⟩ := h
  refine ⟨m', ?_, hborn ▸ hfacts⟩
  rw [latest?, hmarks, List.find?_cons_of_neg (by simpa using hother)]
  exact hlatest

theorem exact_of_mark {s t : Usage α} {x : Action α} (hasRun : Bool) (hborn : t.born = s.born)
    (hle : s.born ≤ s.now) (hmarks : t.marks = s.mark x hasRun :: s.marks)
    (hbase : (s.mark x hasRun).base = x.remaining) : t.Exact s.now s.skipping x := by
  refine ⟨s.mark x hasRun, ?_, hborn ▸ hle, Nat.le_refl _, Nat.le_refl _, ?_⟩
  · rw [latest?, hmarks]
    exact List.find?_cons_of_pos (by simp [mark])
  · rw [Mark.remaining, hbase]
    simp only [mark]
    omega

/-- All countdowns are exact, and time is only skipped when the agenda is old. -/
structure Kept (s : Usage α) : Prop where
  exact : ∀ x ∈ s.agenda.actions, s.Exact s.agenda.counted s.skipped x
  old_of_skipped : 0 < s.skipped → Action.maxCountdown < s.agenda.counted - s.born

theorem Kept.aged {s : Usage α} (h : Kept s) (hinUse : InUse s) :
    ∀ x ∈ s.agenda.aged s.now, s.Exact s.now s.skipping x := by
  intro y hy
  obtain ⟨x, hx, rfl⟩ := List.mem_map.mp hy
  exact exact_lessen (h.exact x hx) hinUse.counted_le

theorem Kept.old_of_skipping {s : Usage α} (h : Kept s) (hinUse : InUse s)
    (hskipping : 0 < s.skipping) : Action.maxCountdown < s.now - s.born := by
  have hborn := hinUse.born_le
  have hcounted := hinUse.counted_le
  unfold skipping at hskipping
  by_cases hskipped : 0 < s.skipped
  · have hold := h.old_of_skipped hskipped
    omega
  · omega

theorem Kept.of_turn {s t : Usage α} {d : Deed α} {new : List (Mark α)} (h : Kept s)
    (hinUse : InUse s) (hadmits : s.Admits d) (hturn : Turn s d new t) : Kept t := by
  have hle : s.born ≤ s.now := Nat.le_trans hinUse.born_le hinUse.counted_le
  have haged := h.aged hinUse
  have hold := h.old_of_skipping hinUse
  cases hturn with
  | pass span => exact ⟨h.exact, h.old_of_skipped⟩
  | edit key period =>
      refine ⟨?_, h.old_of_skipped⟩
      intro y hy
      obtain ⟨x, hx, hid, hremaining⟩ := mem_editPeriod hy
      have hexact := h.exact x hx
      rw [Exact, ← hid, ← hremaining] at hexact
      exact hexact
  | look d hcount =>
      refine ⟨?_, hold⟩
      exact fun x hx => haged x ((ahead_perm _ _).subset hx)
  | run hcount hahead hdue =>
      rename_i x rest
      have hdistinct := hinUse.ahead_distinct
      rw [hahead, List.map_cons, List.nodup_cons] at hdistinct
      refine ⟨?_, hold⟩
      intro y hy
      rcases List.mem_cons.mp hy with rfl | hy
      · exact exact_of_mark (s := s) true rfl hle rfl rfl
      · -- The new record hides none of another action, for no two share an id.
        have hexact := haged y ((ahead_perm _ _).subset (hahead ▸ List.mem_cons_of_mem x hy))
        refine hexact.keep rfl rfl ?_
        intro hid
        exact hdistinct.1 (hid ▸ List.mem_map_of_mem hy)
  | add x hcount =>
      obtain ⟨hnew, _⟩ := hadmits
      refine ⟨?_, hold⟩
      intro y hy
      rcases List.mem_append.mp hy with hy | hy
      · refine (haged y hy).keep rfl rfl ?_
        intro hid
        apply hnew
        rw [← aged_ids s.agenda s.now, show x.id = y.id from hid]
        exact List.mem_map_of_mem hy
      · rw [List.mem_singleton.mp hy]
        exact exact_of_mark (s := s) false rfl hle rfl rfl

theorem find?_id {actions : List (Action α)} (hdistinct : (actions.map (·.id)).Nodup)
    {x : Action α} (hx : x ∈ actions) : actions.find? (·.id = x.id) = some x := by
  induction actions with
  | nil => simp at hx
  | cons y rest ih =>
      rw [List.map_cons, List.nodup_cons] at hdistinct
      rcases List.mem_cons.mp hx with rfl | hx
      · exact List.find?_cons_of_pos (by simp)
      · have hother : y.id ≠ x.id := fun h => hdistinct.1 (h ▸ List.mem_map_of_mem hx)
        rw [List.find?_cons_of_neg (by simpa using hother)]
        exact ih hdistinct.2 hx

theorem kept_fresh {actions : List (Action α)} (hdistinct : (actions.map (·.id)).Nodup)
    (now : Nat) : Kept (fresh actions now) := by
  refine ⟨?_, fun h => absurd h (Nat.lt_irrefl 0)⟩
  intro x hx
  have hfind : (fresh actions now).latest? x.id = some ⟨x, false, now, 0⟩ := by
    have hx' := find?_id hdistinct hx
    simp only [latest?, fresh, List.find?_map, Function.comp_def, hx', Option.map_some]
  refine ⟨_, hfind, Nat.le_refl _, Nat.le_refl _, Nat.le_refl _, ?_⟩
  simp [Mark.remaining, Mark.base, fresh, Agenda.new]

theorem Reachable.kept {s : Usage α} (h : Reachable s) : Kept s := by
  induction h with
  | fresh actions now hdistinct _ => exact kept_fresh hdistinct now
  | step d hs hadmits hstep ih =>
      obtain ⟨new, hturn⟩ := turn_of_step hstep
      exact ih.of_turn hs.inUse hadmits hturn

/-- An agenda that is not older than the greatest countdown counts all time, for
actions that did not come overdue. -/
theorem Reachable.countable {s : Usage α} (h : Reachable s)
    (hage : s.now - s.born ≤ Action.maxCountdown) (hbase : ∀ m ∈ s.marks, 0 ≤ m.base) :
    s.agenda.Countable s.now := by
  intro y hy
  obtain ⟨m, hlatest, hborn, hinstant, hskipped, hremaining⟩ := h.kept.aged h.inUse y hy
  have hnonneg := hbase m (List.mem_of_find?_eq_some hlatest)
  -- Below, the age bounds what is taken from a base; above, time only takes away.
  obtain ⟨x, hx, rfl⟩ := List.mem_map.mp hy
  have hupper := (h.inUse.inRange x hx).2
  have hcountdown := Action.countdown_nonneg (s.now - s.agenda.counted)
  refine ⟨?_, ?_⟩
  · rw [hremaining, Mark.remaining]
    omega
  · simp only [Action.lessen]
    omega

theorem exact_of_observe {s : Usage α} (h : Reachable s) {a : Agenda α}
    (hobserve : s.agenda.observe s.now = .ok a) :
    ∀ x ∈ a.actions, s.Exact s.now s.skipping x := by
  by_cases hcount : s.agenda.Countable s.now
  · rw [observe_of_countable hcount] at hobserve
    cases hobserve
    exact fun x hx => h.kept.aged h.inUse x ((ahead_perm _ _).subset hx)
  · simp [observe, tick_of_not_countable hcount, bind, Except.bind] at hobserve

/-- The countdowns are exact wherever they are seen. -/
structure Accurate (s : Usage α) : Prop where
  observe : ∀ a, s.agenda.observe s.now = .ok a →
    ∀ x ∈ a.actions, s.Exact s.now s.skipping x
  next : ∀ x a, s.agenda.next s.now = .ok (x, a) → s.Exact s.now s.skipping x
  sleepTime : ∀ span a, s.agenda.sleepTime s.now = .ok (span, a) →
    ∃ x, s.Exact s.now s.skipping x ∧ span = x.remaining.toNat
  editPeriod : ∀ key period, (s.agenda.editPeriod key period).2.actions.map (·.remaining) =
    s.agenda.actions.map (·.remaining)
  skipping : s.now - s.born ≤ Action.maxCountdown → s.skipping = 0
  inRange : s.now - s.born ≤ Action.maxCountdown → (∀ m ∈ s.marks, 0 ≤ m.base) →
    ∀ d, s.step d ≠ .error .outOfRange

/-- Whatever was done with an agenda, a look shows of each action the countdown that
began when it came or last ran, less the time since then; only what exceeded the
greatest countdown between two looks is missing. Another period changes no
countdown. Before the agenda is older than the greatest countdown nothing is
missing, and no countdown leaves its range unless an action came overdue. -/
theorem countdowns_exact {s : Usage α} (h : Reachable s) : s.Accurate := by
  have hnext : ∀ x a, s.agenda.next s.now = .ok (x, a) → s.Exact s.now s.skipping x := by
    intro x a hnext
    cases hobserve : s.agenda.observe s.now with
    | error e => simp [Agenda.next, hobserve, bind, Except.bind] at hnext
    | ok b =>
        have hexact := exact_of_observe h hobserve
        simp only [Agenda.next, hobserve, bind, Except.bind] at hnext
        cases hactions : b.actions with
        | nil => simp [hactions] at hnext
        | cons y rest =>
            simp only [hactions] at hnext
            cases hnext
            exact hexact x (by simp [hactions])
  refine ⟨fun a => exact_of_observe h, hnext, ?_, editPeriod_remaining s.agenda, ?_, ?_⟩
  · intro span a hsleep
    cases hfirst : s.agenda.next s.now with
    | error e => simp [Agenda.sleepTime, hfirst, bind, Except.bind] at hsleep
    | ok found =>
        obtain ⟨x, b⟩ := found
        simp only [Agenda.sleepTime, hfirst] at hsleep
        cases hsleep
        exact ⟨x, hnext x b hfirst, rfl⟩
  · intro hage
    have hold := h.kept.old_of_skipping h.inUse
    omega
  · intro hage hbase
    exact step_ne_outOfRange (h.countable hage hbase)

/-! ## An action that is alone -/

/-- It runs every two seconds, first after one. -/
def heartbeat : Action Unit :=
  (Action.new "heartbeat" "1" () (Duration.ofSeconds 2)).after (Duration.ofSeconds 1)

theorem ahead_heartbeat (span : Nat) :
    ((fresh [heartbeat] 0).later span).agenda.ahead ((fresh [heartbeat] 0).later span).now =
      [heartbeat.lessen span] := by
  rw [ahead_of_ordered _ _ (List.pairwise_singleton _ _)]
  simp [aged, later, fresh, Agenda.new]

theorem countable_heartbeat (span : Nat) (h : (heartbeat.lessen span).InRange) :
    ((fresh [heartbeat] 0).later span).agenda.Countable ((fresh [heartbeat] 0).later span).now := by
  intro y hy
  have hy' := (ahead_perm _ _).symm.subset hy
  rw [ahead_heartbeat, List.mem_singleton] at hy'
  exact hy' ▸ h

theorem reachable_alone {x : Action Unit} (h : x.InRange) (span : Nat) :
    Reachable ((fresh [x] 0).later span) := by
  have hfresh : Reachable (fresh [x] 0) :=
    .fresh _ 0 (by simp) fun y hy => List.mem_singleton.mp hy ▸ h
  exact hfresh.step (.pass span) trivial rfl

theorem reachable_heartbeat (span : Nat) : Reachable ((fresh [heartbeat] 0).later span) :=
  reachable_alone (by rw [Action.InRange]; decide) span

/-- It ran half a second late, and half a second later it got another period. -/
def rescheduled : Usage Unit :=
  let late := (fresh [heartbeat] 0).later (Duration.ofMillis 1500)
  let ran := (heartbeat.lessen (Duration.ofMillis 1500)).fire
  let later := (late.after ⟨[ran], late.now⟩ [late.mark ran true]).later (Duration.ofMillis 500)
  { later with agenda := (later.agenda.editPeriod "1" (Duration.ofSeconds 5)).2 }

theorem reachable_rescheduled : Reachable rescheduled := by
  have hcount := countable_heartbeat (Duration.ofMillis 1500) (by rw [Action.InRange]; decide)
  have hran := (reachable_heartbeat _).step .call trivial
    (step_call_of_due hcount (ahead_heartbeat _) (by decide))
  exact (hran.step (.pass _) trivial rfl).step (.edit "1" (Duration.ofSeconds 5)) trivial rfl

theorem countdowns_exact_rescheduled :
    rescheduled.Reachable ∧
      (rescheduled.latest? "1").map (·.remaining rescheduled.now rescheduled.skipping) =
        some (Duration.ofMillis 1500 : Int) ∧
      rescheduled.Accurate :=
  ⟨reachable_rescheduled, by decide, countdowns_exact reachable_rescheduled⟩

def overslept : Usage Unit := (fresh [heartbeat] 0).later (Duration.ofMillis (twoTo 63))

/-- The action came a millisecond late, as long ago as the greatest countdown. -/
def belated : Usage Unit :=
  (fresh [{ heartbeat with remaining := -Duration.ofMillis 1 }] 0).later Action.maxCountdown

/-- A millisecond is missing from what the next look shows, and a look at an action
that came late fails. -/
theorem not_exact_overslept :
    (overslept.Reachable ∧ ∃ x a, overslept.agenda.next overslept.now = .ok (x, a) ∧
      ∃ m, overslept.latest? x.id = some m ∧ m.hasRun = false ∧
        m.base = Duration.ofSeconds 1 ∧ m.instant = 0 ∧
        x.remaining ≠ m.base - ((overslept.now : Int) - m.instant)) ∧
      belated.Reachable ∧ belated.now - belated.born ≤ Action.maxCountdown ∧
        belated.step .look = .error .outOfRange := by
  constructor
  · refine ⟨reachable_heartbeat _, ?_⟩
    have hcount := countable_heartbeat (Duration.ofMillis (twoTo 63))
      (by rw [Action.InRange]; decide)
    have hnext := next_of_countable hcount
    rw [ahead_heartbeat] at hnext
    refine ⟨_, _, hnext, _, rfl, rfl, rfl, rfl, ?_⟩
    decide
  · have hcount : ¬ belated.agenda.Countable belated.now := by
      intro h
      have hrange := h _ List.mem_cons_self
      rw [Action.InRange] at hrange
      revert hrange
      decide
    refine ⟨reachable_alone (by rw [Action.InRange]; decide) _, Nat.le_refl _, ?_⟩
    rw [step, observe, tick_of_not_countable hcount]
    rfl

end Usage
end EdgeAgent.Agenda
