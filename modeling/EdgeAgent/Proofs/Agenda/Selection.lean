import EdgeAgent.Proofs.Agenda.Look

/-! # Who comes next, and when

A look shows the actions in the order in which they are due, those that are due at one
instant in the order that they had. Whoever then sleeps for as long as he is told wakes
neither before an action is due nor after it. Only where a countdown leaves its range is
nothing shown.
-/

namespace EdgeAgent

/-- The same actions, the soonest first. Those with the same time left keep their order. -/
structure Action.Sorts {α : Type} (xs ys : List (Action α)) : Prop where
  perm : ys.Perm xs
  ascending : ys.Pairwise fun x y => x.remaining ≤ y.remaining
  ties : ∀ r : Int, ys.filter (·.remaining = r) = xs.filter (·.remaining = r)

theorem Action.sorts_inOrder {α : Type} (xs : List (Action α)) : Sorts xs (inOrder xs) :=
  ⟨inOrder_perm xs, inOrder_ordered xs, filter_inOrder xs⟩

namespace Agenda

variable {α : Type}

/-- What a look at an instant shows, and for how long one may sleep. -/
structure Selects (a : Agenda α) (now : Nat) : Prop where
  observe : ∃ b, a.observe now = .ok b ∧ b.counted = now ∧ Action.Sorts (a.aged now) b.actions
  next : a.actions ≠ [] → ∃ x b, a.next now = .ok (x, b) ∧ a.observe now = .ok b ∧
    x ∈ b.actions ∧ ∀ y ∈ b.actions, x.remaining ≤ y.remaining
  /-- Nobody is due before the end of the span, and whoever comes next is due then. -/
  sleepTime : a.actions ≠ [] → ∃ span b, a.sleepTime now = .ok (span, b) ∧
    a.observe now = .ok b ∧ (span = 0 ↔ ∃ x ∈ b.actions, x.isDue = true) ∧
      (∀ t, now ≤ t → t < now + span →
        ∃ c, b.observe t = .ok c ∧ ∀ x ∈ c.actions, x.isDue = false) ∧
      ∃ x c, b.next (now + span) = .ok (x, c) ∧ x.isDue = true
  finishCycle : a.finishCycle now = a.sleepTime now
  empty : a.actions = [] → a.observe now = .ok ⟨[], now⟩ ∧ a.next now = .error .empty ∧
    a.sleepTime now = .error .empty ∧ a.finishCycle now = .error .empty

/-- Nothing can be shown any more. -/
structure Fails (a : Agenda α) (now : Nat) : Prop where
  observe : a.observe now = .error .outOfRange
  next : a.next now = .error .outOfRange
  sleepTime : a.sleepTime now = .error .outOfRange
  finishCycle : a.finishCycle now = .error .outOfRange

theorem ahead_eq_nil_iff {a : Agenda α} {now : Nat} : a.ahead now = [] ↔ a.actions = [] := by
  rw [List.eq_nil_iff_length_eq_zero, (a.ahead_perm now).length_eq, aged, List.length_map,
    ← List.eq_nil_iff_length_eq_zero]

theorem least_of_ahead_eq {a : Agenda α} {now : Nat} {x : Action α} {rest : List (Action α)}
    (h : a.ahead now = x :: rest) : ∀ y ∈ x :: rest, x.remaining ≤ y.remaining := by
  intro y hy
  rcases List.mem_cons.mp hy with rfl | hy
  · exact Int.le_refl _
  · exact le_of_ahead_eq h y hy

/-! ## Looking again -/

theorem next_again {a : Agenda α} {now : Nat} {x : Action α} {rest : List (Action α)}
    (hcount : a.Countable now) (hahead : a.ahead now = x :: rest) :
    (⟨x :: rest, now⟩ : Agenda α).next now = .ok (x, ⟨x :: rest, now⟩) := by
  have hordered := Action.inOrder_ordered (a.aged now)
  have hsame : Action.inOrder (a.aged now) = x :: rest := hahead
  rw [hsame] at hordered
  have hagain : (⟨x :: rest, now⟩ : Agenda α).ahead now = x :: rest := by
    rw [ahead, aged_self]
    exact Action.inOrder_of_ordered hordered
  have hcounted : (⟨x :: rest, now⟩ : Agenda α).Countable now := by
    rw [Countable, aged_self, ← hahead]
    exact fun y hy => hcount y ((a.ahead_perm now).subset hy)
  rw [next_of_countable hcounted, hagain]

theorem finishCycle_eq_sleepTime (a : Agenda α) (now : Nat) :
    a.finishCycle now = a.sleepTime now := by
  by_cases hcount : a.Countable now
  · rw [finishCycle, sleepTime_of_countable hcount]
    cases hahead : a.ahead now with
    | nil => rfl
    | cons x rest =>
        simp only [next_again hcount hahead, bind, Except.bind]
        rfl
  · rw [finishCycle, sleepTime, next, observe, tick_of_not_countable hcount]
    rfl

/-! ## Sleeping -/

section

variable {x : Action α} {rest : List (Action α)} {now t : Nat}

/-- Until the first action is due, all time is counted in full. -/
theorem remaining_of_soon (hx : x.InRange) (ht : t ≤ now + x.sleep) :
    ∀ y ∈ (⟨x :: rest, now⟩ : Agenda α).aged t,
      ∃ z ∈ x :: rest, y.remaining = z.remaining - (t - now : Nat) := by
  intro y hy
  obtain ⟨z, hz, rfl⟩ := List.mem_map.mp hy
  have hupper := hx.2
  refine ⟨z, hz, ?_⟩
  unfold Action.sleep at ht
  simp only [Action.lessen, Action.countdown]
  omega

theorem countable_of_soon (hrange : ∀ y ∈ x :: rest, y.InRange)
    (hfirst : ∀ y ∈ x :: rest, x.remaining ≤ y.remaining) (ht : t ≤ now + x.sleep) :
    (⟨x :: rest, now⟩ : Agenda α).Countable t := by
  intro y hy
  obtain ⟨z, hz, hremaining⟩ := remaining_of_soon (hrange x List.mem_cons_self) ht y hy
  have hbounds := hrange z hz
  have hleast := hfirst z hz
  unfold Action.InRange at hbounds ⊢
  unfold Action.sleep at ht
  omega

/-- Nobody is due while one sleeps. -/
theorem observe_before (hrange : ∀ y ∈ x :: rest, y.InRange)
    (hfirst : ∀ y ∈ x :: rest, x.remaining ≤ y.remaining) (hle : now ≤ t)
    (ht : t < now + x.sleep) :
    ∃ c, (⟨x :: rest, now⟩ : Agenda α).observe t = .ok c ∧ ∀ y ∈ c.actions, y.isDue = false := by
  have hcount := countable_of_soon hrange hfirst (Nat.le_of_lt ht)
  refine ⟨_, observe_of_countable hcount, ?_⟩
  intro y hy
  have haged := (ahead_perm _ t).subset hy
  obtain ⟨z, hz, hremaining⟩ :=
    remaining_of_soon (hrange x List.mem_cons_self) (Nat.le_of_lt ht) y haged
  have hleast := hfirst z hz
  unfold Action.sleep at ht
  simp only [Action.isDue, decide_eq_false_iff_not]
  omega

/-- Somebody is due when one wakes. -/
theorem next_at (hrange : ∀ y ∈ x :: rest, y.InRange)
    (hfirst : ∀ y ∈ x :: rest, x.remaining ≤ y.remaining) :
    ∃ y c, (⟨x :: rest, now⟩ : Agenda α).next (now + x.sleep) = .ok (y, c) ∧ y.isDue = true := by
  have hcount : (⟨x :: rest, now⟩ : Agenda α).Countable (now + x.sleep) :=
    countable_of_soon hrange hfirst (Nat.le_refl _)
  have hperm := (⟨x :: rest, now⟩ : Agenda α).ahead_perm (now + x.sleep)
  have hmem : x.lessen x.sleep ∈ (⟨x :: rest, now⟩ : Agenda α).aged (now + x.sleep) := by
    simp [aged]
  have hdue : (x.lessen x.sleep).remaining ≤ 0 := by
    have hupper := (hrange x List.mem_cons_self).2
    simp only [Action.lessen, Action.countdown, Action.sleep]
    omega
  cases hahead : (⟨x :: rest, now⟩ : Agenda α).ahead (now + x.sleep) with
  | nil =>
      rw [hahead] at hperm
      rw [hperm.nil_eq.symm] at hmem
      cases hmem
  | cons y others =>
      rw [hahead] at hperm
      -- Whoever comes next has no more time left than the one that was waited for.
      have hleast := least_of_ahead_eq hahead _ (hperm.symm.subset hmem)
      have hnext := next_of_countable hcount
      rw [hahead] at hnext
      refine ⟨y, _, hnext, ?_⟩
      simp only [Action.isDue, decide_eq_true_eq]
      omega

end

/-! ## Selection -/

theorem Countable.selects {a : Agenda α} {now : Nat} (h : a.Countable now) : a.Selects now := by
  have hobserve := observe_of_countable h
  have hsleep := sleepTime_of_countable h
  have hnext := next_of_countable h
  cases hahead : a.ahead now with
  | nil =>
      have hnone : a.actions = [] := ahead_eq_nil_iff.mp hahead
      rw [hahead] at hobserve hsleep hnext
      have hfinish : a.finishCycle now = .error .empty := by
        rw [finishCycle_eq_sleepTime, hsleep]
      refine ⟨⟨_, hobserve, rfl, ?_⟩, fun hsome => absurd hnone hsome,
        fun hsome => absurd hnone hsome, finishCycle_eq_sleepTime a now,
        fun _ => ⟨hobserve, hnext, hsleep, hfinish⟩⟩
      rw [← hahead]
      exact Action.sorts_inOrder _
  | cons x rest =>
      have hsome : a.actions ≠ [] := by
        intro hnone
        rw [ahead_eq_nil_iff.mpr hnone] at hahead
        cases hahead
      rw [hahead] at hobserve hsleep hnext
      have hrange : ∀ y ∈ x :: rest, y.InRange := by
        rw [← hahead]
        exact fun y hy => h y ((a.ahead_perm now).subset hy)
      have hfirst := least_of_ahead_eq hahead
      have hdue : x.sleep = 0 ↔ ∃ y ∈ x :: rest, y.isDue = true := by
        simp only [Action.sleep, Action.isDue, decide_eq_true_eq]
        constructor
        · exact fun hzero => ⟨x, List.mem_cons_self, by omega⟩
        · rintro ⟨y, hy, hle⟩
          have hleast := hfirst y hy
          omega
      refine ⟨⟨_, hobserve, rfl, ?_⟩, fun _ => ⟨x, _, hnext, hobserve, List.mem_cons_self, hfirst⟩,
        fun _ => ⟨x.sleep, _, hsleep, hobserve, hdue, ?_, next_at hrange hfirst⟩,
        finishCycle_eq_sleepTime a now, fun hnone => absurd hnone hsome⟩
      · rw [← hahead]
        exact Action.sorts_inOrder _
      · exact fun t hle ht => observe_before hrange hfirst hle ht

theorem fails_of_not_countable {a : Agenda α} {now : Nat} (h : ¬a.Countable now) :
    a.Fails now := by
  have hobserve : a.observe now = .error .outOfRange := by
    rw [observe, tick_of_not_countable h]
    rfl
  have hnext : a.next now = .error .outOfRange := by
    rw [next, hobserve]
    rfl
  have hsleep : a.sleepTime now = .error .outOfRange := by
    rw [sleepTime, hnext]
    rfl
  exact ⟨hobserve, hnext, hsleep, (finishCycle_eq_sleepTime a now).trans hsleep⟩

/-- Wherever the time can be counted, a look shows the same actions in their order, the
first one has the least time left, and the time to sleep ends just when an action is due.
Where a countdown would leave its range nothing is shown. -/
theorem selects_or_fails (a : Agenda α) (now : Nat) :
    (a.Countable now → a.Selects now) ∧ (¬a.Countable now → a.Fails now) :=
  ⟨Countable.selects, fails_of_not_countable⟩

/-! ## A look too late -/

def neglected : Agenda Unit :=
  ⟨[{ Action.new "telemetry" "1" () (Duration.ofSeconds 1) with
      remaining := -(Action.maxCountdown : Int) }], Action.maxCountdown⟩

theorem not_countable_neglected :
    ¬neglected.Countable (Action.maxCountdown + Duration.ofMillis 1) := by
  intro h
  have hrange := h _ List.mem_cons_self
  revert hrange
  rw [Action.InRange]
  decide

/-- It was due from the beginning, and is still shown when the time is up. A millisecond
later it is not shown any more, nor is the time to sleep. -/
theorem not_selects_neglected :
    (Agenda.new [Action.new "telemetry" "1" () (Duration.ofSeconds 1)] 0).observe
        Action.maxCountdown = .ok neglected ∧
      neglected.actions ≠ [] ∧
      neglected.observe (Action.maxCountdown + Duration.ofMillis 1) = .error .outOfRange ∧
      neglected.next (Action.maxCountdown + Duration.ofMillis 1) = .error .outOfRange ∧
      neglected.sleepTime (Action.maxCountdown + Duration.ofMillis 1) = .error .outOfRange ∧
      ¬neglected.Selects (Action.maxCountdown + Duration.ofMillis 1) := by
  have hfails := fails_of_not_countable not_countable_neglected
  refine ⟨rfl, List.cons_ne_nil _ _, hfails.observe, hfails.next, hfails.sleepTime, ?_⟩
  intro h
  obtain ⟨b, hb, _⟩ := h.observe
  rw [hfails.observe] at hb
  cases hb

end Agenda
end EdgeAgent
