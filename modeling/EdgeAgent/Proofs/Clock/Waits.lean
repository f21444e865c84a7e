import EdgeAgent.Clock.Timeline

/-! # Turns and waits

A turn is taken when it is due, and not after the limit of a wait. So what every turn
keeps is kept by a wait. At its limit a wait goes on without a turn.
-/

namespace EdgeAgent.Timeline

variable {σ : Type} [Timed σ]

theorem step?_eq_some_iff {t u : Timeline σ} {limit : Option Nat} :
    t.step? limit = some u ↔ ∃ timer, Timed.due t.part t.now = some timer ∧
      limit.all (timer.rings ≤ ·) = true ∧ u = t.take timer.rings := by
  unfold step?
  cases Timed.due t.part t.now with
  | none => simp
  | some timer =>
      dsimp only
      split
      · rename_i hlimit
        rw [Option.some.injEq]
        constructor
        · intro hu
          exact ⟨timer, rfl, hlimit, hu.symm⟩
        · rintro ⟨_, ⟨⟩, _, hu⟩
          exact hu.symm
      · rename_i hlimit
        refine iff_of_false nofun ?_
        rintro ⟨_, ⟨⟩, hrings, _⟩
        exact hlimit hrings

theorem run_keeps {P : Timeline σ → Prop} {limit : Option Nat}
    (htake : ∀ t instant, P t → limit.all (instant ≤ ·) = true → P (t.take instant))
    (done : σ → Bool) (fuel : Nat) {t : Timeline σ} (h : P t) : P (t.run limit done fuel) := by
  induction fuel generalizing t with
  | zero => exact h
  | succ fuel ih =>
      rw [run]
      split
      · exact h
      · cases hstep : t.step? limit with
        | none => exact h
        | some u =>
            obtain ⟨timer, _, hlimit, rfl⟩ := step?_eq_some_iff.mp hstep
            exact ih (htake t timer.rings h hlimit)

/-- A wait ends with the turn after which it is over, or at its limit. -/
theorem awaitAtMost_spec (t : Timeline σ) (done : σ → Bool) {span : Nat} (hspan : 0 < span) :
    (t.awaitAtMost done span).part =
        (t.run (some (Instant.endOfWait t.now span - 1)) done t.patience).part ∧
      (t.awaitAtMost done span).now =
        if done (t.run (some (Instant.endOfWait t.now span - 1)) done t.patience).part then
          (t.run (some (Instant.endOfWait t.now span - 1)) done t.patience).now
        else Instant.endOfWait t.now span := by
  rw [awaitAtMost, if_neg (Nat.ne_of_gt hspan)]
  dsimp only
  split <;> exact ⟨rfl, rfl⟩

end EdgeAgent.Timeline
