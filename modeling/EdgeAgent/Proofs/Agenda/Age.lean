import Mathlib.Algebra.GroupWithZero.Nat
import EdgeAgent.Proofs.Agenda.Cards

/-! # The age of an agenda

No action is overdue for longer than its agenda is old. So an agenda answers until it is
older than the greatest countdown, and of what it answers every run is counted once.
-/

namespace EdgeAgent.Agenda

variable {α : Type}

/-- There are actions, and none of them has been overdue since before the agenda was born. -/
structure Young (a : Agenda α) (born : Nat) : Prop where
  some_action : a.actions ≠ []
  born_le : born ≤ a.counted
  overdue : ∀ x ∈ a.actions, (born : Int) - a.counted ≤ x.remaining
  upcoming : ∀ x ∈ a.actions, x.remaining ≤ Action.maxCountdown

def runsOf (a : Agenda α) (name : String) : Nat :=
  ((a.actions.filter fun x => x.name = name).map (·.runs)).sum

variable {a : Agenda α} {born now : Nat}

/-! ## Time that passes -/

theorem Young.aged (h : a.Young born) (hcounted : a.counted ≤ now) :
    ∀ x ∈ a.aged now, (born : Int) - now ≤ x.remaining ∧ x.remaining ≤ Action.maxCountdown := by
  intro y hy
  obtain ⟨x, hx, rfl⟩ := List.mem_map.mp hy
  have hoverdue := h.overdue x hx
  have hupcoming := h.upcoming x hx
  have hnonneg := Action.countdown_nonneg (now - a.counted)
  have hspan : Action.countdown (now - a.counted) ≤ (now - a.counted : Nat) := by
    unfold Action.countdown
    omega
  simp only [Action.lessen]
  omega

/-- The time can be counted, unless the agenda is older than the greatest countdown. -/
theorem Young.countable (h : a.Young born) (hcounted : a.counted ≤ now) :
    a.Countable now ∨ Action.maxCountdown < now - born := by
  by_cases hage : now - born ≤ Action.maxCountdown
  · refine .inl fun x hx => ?_
    have hborn := h.born_le
    have haged := h.aged hcounted x hx
    unfold Action.InRange
    omega
  · exact .inr (by omega)

theorem Young.ahead (h : a.Young born) (hcounted : a.counted ≤ now) :
    ∃ x rest, a.ahead now = x :: rest ∧ (⟨x :: rest, now⟩ : Agenda α).Young born := by
  have hperm := a.ahead_perm now
  have haged := h.aged hcounted
  cases hahead : a.ahead now with
  | nil =>
      rw [hahead] at hperm
      have hnone : a.actions = [] := List.map_eq_nil_iff.mp hperm.nil_eq.symm
      exact absurd hnone h.some_action
  | cons x rest =>
      rw [hahead] at hperm
      refine ⟨x, rest, rfl, List.cons_ne_nil _ _, Nat.le_trans h.born_le hcounted, ?_, ?_⟩
      · exact fun y hy => (haged y (hperm.subset hy)).1
      · exact fun y hy => (haged y (hperm.subset hy)).2

theorem Young.fire {x : Action α} {rest : List (Action α)}
    (h : (⟨x :: rest, now⟩ : Agenda α).Young born) :
    (⟨x.fire :: rest, now⟩ : Agenda α).Young born := by
  have hborn : born ≤ now := h.born_le
  refine ⟨List.cons_ne_nil _ _, hborn, ?_, ?_⟩
  · intro y hy
    rcases List.mem_cons.mp hy with rfl | hy
    · have hnonneg := Action.countdown_nonneg x.period
      have hremaining : x.fire.remaining = Action.countdown x.period := rfl
      dsimp only
      omega
    · exact h.overdue y (List.mem_cons_of_mem _ hy)
  · intro y hy
    rcases List.mem_cons.mp hy with rfl | hy
    · exact x.inRange_fire.2
    · exact h.upcoming y (List.mem_cons_of_mem _ hy)

theorem runsOf_of_perm {b : Agenda α} (h : b.actions.Perm (a.aged now)) (name : String) :
    b.runsOf name = a.runsOf name := by
  have hruns : ((a.aged now).filter fun x => x.name = name).map (·.runs) =
      (a.actions.filter fun x => x.name = name).map (·.runs) := by
    simp only [Agenda.aged, List.filter_map, List.map_map]
    rfl
  unfold runsOf
  rw [← hruns]
  exact ((h.filter _).map _).sum_nat

theorem runsOf_fire (x : Action α) (rest : List (Action α)) (name : String) :
    (⟨x.fire :: rest, now⟩ : Agenda α).runsOf name =
      (⟨x :: rest, now⟩ : Agenda α).runsOf name + if x.name = name then 1 else 0 := by
  have hname : x.fire.name = x.name := rfl
  have hruns : x.fire.runs = x.runs + 1 := rfl
  unfold runsOf
  simp only [List.filter_cons, hname]
  by_cases h : x.name = name
  · simp only [h, decide_true, if_true, List.map_cons, List.sum_cons, hruns]
    omega
  · simp only [h, decide_false, if_false, Bool.false_eq_true]
    omega

/-! ## Operations -/

theorem Young.sleepTime (h : a.Young born) (hcounted : a.counted ≤ now) :
    (∃ span b, a.sleepTime now = .ok (span, b) ∧ b.Young born ∧ b.counted = now ∧
        ∀ name, b.runsOf name = a.runsOf name) ∨
      a.sleepTime now = .error .outOfRange ∧ Action.maxCountdown < now - born := by
  by_cases hcount : a.Countable now
  · obtain ⟨x, rest, hahead, hyoung⟩ := h.ahead hcounted
    have hperm := a.ahead_perm now
    have hsleep := sleepTime_of_countable hcount
    rw [hahead] at hsleep hperm
    exact .inl ⟨_, _, hsleep, hyoung, rfl, runsOf_of_perm hperm⟩
  · have hold := (h.countable hcounted).resolve_left hcount
    have hfault : a.sleepTime now = .error .outOfRange := by
      rw [Agenda.sleepTime, next_of_not_countable hcount]
      rfl
    exact .inr ⟨hfault, hold⟩

theorem Young.callNext (h : a.Young born) (hcounted : a.counted ≤ now) :
    (∃ fired b, a.callNext now = .ok (fired, b) ∧ b.Young born ∧ b.counted = now ∧
        ∀ name, b.runsOf name =
          a.runsOf name + if fired.any (·.name = name) then 1 else 0) ∨
      a.callNext now = .error .outOfRange ∧ Action.maxCountdown < now - born := by
  by_cases hcount : a.Countable now
  · obtain ⟨x, rest, hahead, hyoung⟩ := h.ahead hcounted
    have hperm := a.ahead_perm now
    have hcall := callNext_of_countable hcount
    rw [hahead] at hcall hperm
    have hruns := runsOf_of_perm (b := ⟨x :: rest, now⟩) hperm
    dsimp only at hcall
    split at hcall
    case isTrue hdue =>
        refine .inl ⟨_, _, hcall, hyoung.fire, rfl, ?_⟩
        intro name
        have hname : x.fire.name = x.name := rfl
        rw [runsOf_fire, hruns]
        simp [hname]
    case isFalse hlater =>
        refine .inl ⟨_, _, hcall, hyoung, rfl, ?_⟩
        intro name
        rw [hruns]
        rfl
  · have hold := (h.countable hcounted).resolve_left hcount
    have hfault : a.callNext now = .error .outOfRange := by
      rw [Agenda.callNext, next_of_not_countable hcount]
      rfl
    exact .inr ⟨hfault, hold⟩

theorem Young.editPeriod (h : a.Young born) (key : String) (period : Nat) :
    (a.editPeriod key period).2.Young born := by
  have hedited : ∀ y ∈ (a.editPeriod key period).2.actions,
      ∃ x ∈ a.actions, y.remaining = x.remaining := by
    intro y hy
    obtain ⟨x, hx, rfl⟩ := List.mem_map.mp hy
    refine ⟨x, hx, ?_⟩
    split <;> rfl
  refine ⟨?_, h.born_le, ?_, ?_⟩
  · exact fun hnone => h.some_action (List.map_eq_nil_iff.mp hnone)
  · intro y hy
    obtain ⟨x, hx, hremaining⟩ := hedited y hy
    rw [hremaining]
    exact h.overdue x hx
  · intro y hy
    obtain ⟨x, hx, hremaining⟩ := hedited y hy
    rw [hremaining]
    exact h.upcoming x hx

theorem runsOf_editPeriod (a : Agenda α) (key : String) (period : Nat) (name : String) :
    (a.editPeriod key period).2.runsOf name = a.runsOf name := by
  have hname : ∀ x : Action α, (if isMeant key x then { x with period } else x).name = x.name := by
    intro x
    split <;> rfl
  have hruns : ∀ x : Action α, (if isMeant key x then { x with period } else x).runs = x.runs := by
    intro x
    split <;> rfl
  unfold runsOf Agenda.editPeriod
  simp only [List.filter_map, List.map_map, Function.comp_def, hname, hruns]

end EdgeAgent.Agenda
