import EdgeAgent.Agenda.Basic

/-! # Looking at an agenda

Each look counts the time up to now and then works on the counted actions. One
lemma for each operation says what it makes of them; all of them fail only where
a countdown leaves its range, or where there is no action.
-/

namespace EdgeAgent

namespace Action

variable {α : Type}

theorem countdown_nonneg (d : Nat) : 0 ≤ countdown d := by
  unfold countdown
  omega

theorem countdown_le (d : Nat) : countdown d ≤ maxCountdown := by
  unfold countdown
  omega

theorem countdown_pos {d : Nat} (h : 0 < d) : 0 < countdown d := by
  have hmax : 0 < maxCountdown := by decide
  unfold countdown
  omega

theorem countdown_mono {d e : Nat} (h : d ≤ e) : countdown d ≤ countdown e := by
  unfold countdown
  omega

/-- The action when time has gone by, though its countdown may leave its range. -/
def lessen (x : Action α) (d : Nat) : Action α := { x with remaining := x.remaining - countdown d }

@[simp] theorem lessen_zero (x : Action α) : x.lessen 0 = x := by
  have hzero : countdown 0 = 0 := by decide
  simp [lessen, hzero]

/-- A countdown that can be counted. -/
def InRange (x : Action α) : Prop :=
  -(maxCountdown : Int) ≤ x.remaining ∧ x.remaining ≤ maxCountdown

theorem inRange_fire (x : Action α) : x.fire.InRange := by
  have hnonneg := countdown_nonneg x.period
  have hle := countdown_le x.period
  refine ⟨?_, hle⟩
  simp only [fire]
  omega

theorem elapse_of_inRange {x : Action α} {d : Nat} (h : (x.lessen d).InRange) :
    x.elapse d = some (x.lessen d) := if_pos h

theorem elapse_eq_some_iff {x y : Action α} {d : Nat} :
    x.elapse d = some y ↔ (x.lessen d).InRange ∧ y = x.lessen d := by
  by_cases h : (x.lessen d).InRange
  · simp [elapse_of_inRange h, h, eq_comm]
  · have hnone : x.elapse d = none := if_neg h
    simp [hnone, h]

theorem mapM_elapse_eq_some_iff {xs ys : List (Action α)} {d : Nat} :
    xs.mapM (·.elapse d) = some ys ↔
      (∀ x ∈ xs, (x.lessen d).InRange) ∧ ys = xs.map (·.lessen d) := by
  induction xs generalizing ys with
  | nil => simp [eq_comm]
  | cons x xs ih =>
      simp only [List.mapM_cons, Option.bind_eq_bind, Option.bind_eq_some_iff,
        elapse_eq_some_iff, ih, Option.pure_def, Option.some.injEq, List.forall_mem_cons,
        List.map_cons]
      constructor
      · rintro ⟨_, ⟨hx, rfl⟩, _, ⟨hxs, rfl⟩, rfl⟩
        exact ⟨⟨hx, hxs⟩, rfl⟩
      · rintro ⟨⟨hx, hxs⟩, rfl⟩
        exact ⟨_, ⟨hx, rfl⟩, _, ⟨hxs, rfl⟩, rfl⟩

/-! ## Order -/

theorem putInOrder_perm (x : Action α) (xs : List (Action α)) :
    (x.putInOrder xs).Perm (x :: xs) := by
  induction xs with
  | nil => exact .refl _
  | cons y ys ih =>
      rw [putInOrder]
      split
      · exact .refl _
      · exact (ih.cons y).trans (.swap x y ys)

theorem inOrder_perm (xs : List (Action α)) : (inOrder xs).Perm xs := by
  induction xs with
  | nil => exact .refl _
  | cons x xs ih => exact (putInOrder_perm x (inOrder xs)).trans (ih.cons x)

theorem putInOrder_ordered {x : Action α} {xs : List (Action α)}
    (h : xs.Pairwise fun x y => x.remaining ≤ y.remaining) :
    (x.putInOrder xs).Pairwise fun x y => x.remaining ≤ y.remaining := by
  induction xs with
  | nil => exact List.pairwise_singleton _ _
  | cons y ys ih =>
      obtain ⟨hy, hys⟩ := List.pairwise_cons.mp h
      rw [putInOrder]
      split
      case isTrue hsooner =>
          have hxy : x.remaining ≤ y.remaining := by simpa [sooner] using hsooner
          refine List.pairwise_cons.mpr ⟨?_, h⟩
          intro z hz
          rcases List.mem_cons.mp hz with rfl | hz
          · exact hxy
          · exact Int.le_trans hxy (hy z hz)
      case isFalse hlater =>
          have hyx : y.remaining ≤ x.remaining := by
            simp only [sooner, decide_eq_true_eq] at hlater
            omega
          refine List.pairwise_cons.mpr ⟨?_, ih hys⟩
          intro z hz
          rcases List.mem_cons.mp ((putInOrder_perm x ys).subset hz) with rfl | hz
          · exact hyx
          · exact hy z hz

theorem inOrder_ordered (xs : List (Action α)) :
    (inOrder xs).Pairwise fun x y => x.remaining ≤ y.remaining := by
  induction xs with
  | nil => exact .nil
  | cons x xs ih => exact putInOrder_ordered ih

theorem filter_putInOrder (x : Action α) (xs : List (Action α)) (r : Int) :
    (x.putInOrder xs).filter (·.remaining = r) = (x :: xs).filter (·.remaining = r) := by
  induction xs with
  | nil => rfl
  | cons y ys ih =>
      rw [putInOrder]
      split
      case isTrue => rfl
      case isFalse hlater =>
          have hyx : y.remaining < x.remaining := by
            simp only [sooner, decide_eq_true_eq] at hlater
            omega
          by_cases hy : y.remaining = r
          · have hx : x.remaining ≠ r := by omega
            simp [hy, ih, hx]
          · simp [List.filter_cons, hy, ih]

theorem filter_inOrder (xs : List (Action α)) (r : Int) :
    (inOrder xs).filter (·.remaining = r) = xs.filter (·.remaining = r) := by
  induction xs with
  | nil => rfl
  | cons x xs ih =>
      show (x.putInOrder (inOrder xs)).filter (·.remaining = r) = _
      rw [filter_putInOrder, List.filter_cons, List.filter_cons, ih]

theorem inOrder_of_ordered {xs : List (Action α)}
    (h : xs.Pairwise fun x y => x.remaining ≤ y.remaining) : inOrder xs = xs := by
  induction xs with
  | nil => rfl
  | cons x xs ih =>
      obtain ⟨hx, hxs⟩ := List.pairwise_cons.mp h
      show x.putInOrder (inOrder xs) = x :: xs
      rw [ih hxs]
      cases xs with
      | nil => rfl
      | cons y ys =>
          have hsooner : x.sooner y = true := decide_eq_true (hx y List.mem_cons_self)
          rw [putInOrder, if_pos hsooner]

end Action

namespace Agenda

variable {α : Type}

def aged (a : Agenda α) (now : Nat) : List (Action α) :=
  a.actions.map (·.lessen (now - a.counted))

/-- The same, in the order in which they are due. -/
def ahead (a : Agenda α) (now : Nat) : List (Action α) := Action.inOrder (a.aged now)

/-- The time up to now can be counted. -/
def Countable (a : Agenda α) (now : Nat) : Prop := ∀ x ∈ a.aged now, x.InRange

theorem ahead_perm (a : Agenda α) (now : Nat) : (a.ahead now).Perm (a.aged now) :=
  Action.inOrder_perm _

theorem le_of_ahead_eq {a : Agenda α} {now : Nat} {x : Action α} {rest : List (Action α)}
    (h : a.ahead now = x :: rest) : ∀ y ∈ rest, x.remaining ≤ y.remaining := by
  have hordered := Action.inOrder_ordered (a.aged now)
  have hahead : Action.inOrder (a.aged now) = x :: rest := h
  rw [hahead, List.pairwise_cons] at hordered
  exact hordered.1

theorem ahead_of_ordered (a : Agenda α) (now : Nat)
    (h : (a.aged now).Pairwise fun x y => x.remaining ≤ y.remaining) :
    a.ahead now = a.aged now := Action.inOrder_of_ordered h

theorem aged_self (actions : List (Action α)) (now : Nat) :
    (⟨actions, now⟩ : Agenda α).aged now = actions := by
  simp [aged]

theorem tick_of_countable {a : Agenda α} {now : Nat} (h : a.Countable now) :
    a.tick now = .ok ⟨a.aged now, now⟩ := by
  have hrange : ∀ x ∈ a.actions, (x.lessen (now - a.counted)).InRange := fun x hx =>
    h _ (List.mem_map_of_mem hx)
  rw [tick, Action.mapM_elapse_eq_some_iff.mpr ⟨hrange, rfl⟩]
  rfl

theorem tick_of_not_countable {a : Agenda α} {now : Nat} (h : ¬a.Countable now) :
    a.tick now = .error .outOfRange := by
  have hnone : (a.actions.mapM fun x => x.elapse (now - a.counted)) = none := by
    rw [Option.eq_none_iff_forall_not_mem]
    intro ys hys
    obtain ⟨hrange, _⟩ := Action.mapM_elapse_eq_some_iff.mp hys
    refine h fun x hx => ?_
    obtain ⟨y, hy, rfl⟩ := List.mem_map.mp hx
    exact hrange y hy
  rw [tick, hnone]

/-! ## The operations, where the time can be counted -/

theorem observe_of_countable {a : Agenda α} {now : Nat} (h : a.Countable now) :
    a.observe now = .ok ⟨a.ahead now, now⟩ := by
  simp only [observe, tick_of_countable h]
  rfl

theorem add_of_countable {a : Agenda α} {now : Nat} (h : a.Countable now) (x : Action α) :
    a.add x now = .ok ⟨a.aged now ++ [x], now⟩ := by
  simp only [add, tick_of_countable h]
  rfl

theorem next_of_countable {a : Agenda α} {now : Nat} (h : a.Countable now) :
    a.next now = match a.ahead now with
      | [] => .error .empty
      | x :: rest => .ok (x, ⟨x :: rest, now⟩) := by
  simp only [next, observe_of_countable h]
  cases hahead : a.ahead now with
  | nil => simp [bind, Except.bind]
  | cons x rest => simp [bind, Except.bind, pure, Except.pure]

theorem sleepTime_of_countable {a : Agenda α} {now : Nat} (h : a.Countable now) :
    a.sleepTime now = match a.ahead now with
      | [] => .error .empty
      | x :: rest => .ok (x.sleep, ⟨x :: rest, now⟩) := by
  rw [sleepTime, next_of_countable h]
  cases a.ahead now <;> rfl

theorem callNext_of_countable {a : Agenda α} {now : Nat} (h : a.Countable now) :
    a.callNext now = match a.ahead now with
      | [] => .error .empty
      | x :: rest =>
        if x.isDue then .ok (some x.fire, ⟨x.fire :: rest, now⟩)
        else .ok (none, ⟨x :: rest, now⟩) := by
  rw [callNext, next_of_countable h]
  cases a.ahead now with
  | nil => rfl
  | cons x rest =>
      by_cases hdue : x.isDue <;>
        simp [bind, Except.bind, pure, Except.pure, Action.call, hdue]

end Agenda
end EdgeAgent
