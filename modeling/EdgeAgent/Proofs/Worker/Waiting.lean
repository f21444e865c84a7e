import EdgeAgent.Proofs.Clock.Waits
import EdgeAgent.Proofs.Worker.Moves

/-! # Workers on a timeline

Whatever a worker is asked for on a timeline, and however long it is waited for, it is
a worker in use.
-/

namespace EdgeAgent

namespace Worker

variable {υ π α : Type} [Craft υ π α]

/-- No action of these units ever crashes. -/
def Sturdy (υ : Type) {π α : Type} [Craft υ π α] : Prop :=
  ∀ (unit : υ) (action : α) now w (later : υ) w',
    ((Craft.perform unit action now w).1.finish later w').1 ≠ .crashed

theorem Orderly.not_crashes {s : Worker υ π α} (h : s.Orderly) (hsturdy : Sturdy υ) (w : World) :
    s.crashes w = false := by
  unfold crashes
  cases hloop : s.loop with
  | cycling since action rest ending course =>
      obtain ⟨unit, instant, w', rfl⟩ := h.begun since action rest ending course hloop
      have hends := hsturdy unit action instant w' s.unit w
      dsimp only
      split
      · contradiction
      · rfl
      · rfl
  | _ => rfl

variable [Timed υ] [BEq α] {actions : List α} {param : π}

theorem Reachable.take {t : Timeline (Worker υ π α)} (h : Reachable actions param t.part t.now)
    (hsturdy : Sturdy υ) (instant : Nat) :
    Reachable actions param (t.take instant).part (t.take instant).now := by
  have hlater := h.later (Nat.le_max_left t.now instant)
  exact hlater.act .turn t.count.world fun _ => h.orderly.not_crashes hsturdy _

/-- The turns until a limit are a run, and the clock does not pass the limit. -/
theorem Reachable.run {t : Timeline (Worker υ π α)} (h : Reachable actions param t.part t.now)
    (hsturdy : Sturdy υ) {limit : Nat} (hlimit : t.now ≤ limit) (done : Worker υ π α → Bool)
    (fuel : Nat) : Reachable actions param (t.run (some limit) done fuel).part
        (t.run (some limit) done fuel).now ∧ (t.run (some limit) done fuel).now ≤ limit := by
  refine Timeline.run_keeps (P := fun t => Reachable actions param t.part t.now ∧ t.now ≤ limit)
    (fun t instant ht hinstant => ⟨ht.1.take hsturdy instant, ?_⟩) done fuel ⟨h, hlimit⟩
  exact Nat.max_le.mpr ⟨ht.2, by simpa using hinstant⟩

theorem Reachable.await {t : Timeline (Worker υ π α)} (h : Reachable actions param t.part t.now)
    (hsturdy : Sturdy υ) (done : Worker υ π α → Bool) :
    Reachable actions param (t.await done).part (t.await done).now :=
  Timeline.run_keeps (P := fun t => Reachable actions param t.part t.now)
    (fun _ instant ht _ => ht.take hsturdy instant) done _ h

theorem Reachable.advance {t : Timeline (Worker υ π α)} (h : Reachable actions param t.part t.now)
    (hsturdy : Sturdy υ) (span : Nat) :
    Reachable actions param (t.advance span).part (t.advance span).now := by
  unfold Timeline.advance
  split
  · exact h
  · have hlimit : t.now ≤ Instant.tick (t.now + span) :=
      Nat.le_trans (Nat.le_add_right ..) (Instant.le_tick _)
    obtain ⟨hrun, hle⟩ := h.run hsturdy hlimit (fun _ => false) t.patience
    exact hrun.later hle

theorem Reachable.awaitAtMost {t : Timeline (Worker υ π α)}
    (h : Reachable actions param t.part t.now) (hsturdy : Sturdy υ) (done : Worker υ π α → Bool)
    (span : Nat) :
    Reachable actions param (t.awaitAtMost done span).part (t.awaitAtMost done span).now := by
  unfold Timeline.awaitAtMost
  split
  · exact h
  · have hend := Instant.lt_endOfWait t.now (Nat.pos_of_ne_zero ‹_›)
    have hlimit : t.now ≤ Instant.endOfWait t.now span - 1 := by omega
    obtain ⟨hrun, hle⟩ := h.run hsturdy hlimit done t.patience
    dsimp only
    split
    · exact hrun
    · exact hrun.later (by dsimp only; omega)

/-! ## What is asked of a worker -/

theorem Reachable.awaitStop {t : Timeline (Worker υ π α)}
    (h : Reachable actions param t.part t.now) (hsturdy : Sturdy υ) :
    Reachable actions param (awaitStop t).2.part (awaitStop t).2.now := by
  let asked := t.act fun s _ w => (s.stop, w)
  have hasked : Reachable actions param asked.part asked.now := h.act .stop t.world trivial
  have hwaited := hasked.awaitAtMost hsturdy (!·.isAlive) asked.part.stopTimeout
  exact hwaited.act .confirmEnd t.world trivial

theorem Reachable.awaitReset {t : Timeline (Worker υ π α)}
    (h : Reachable actions param t.part t.now) (hsturdy : Sturdy υ) (p : Option π) (starts : Bool) :
    Reachable actions param (awaitReset t p starts).2.part (awaitReset t p starts).2.now := by
  have hreset := h.act (.reset p starts) t.world trivial
  unfold Worker.awaitReset
  simp only [Worker.act] at hreset
  rcases hanswer : t.part.reset p starts t.now t.world with ⟨e | part, world⟩
  · exact h
  · rw [hanswer] at hreset
    exact Reachable.await (t := { t with part, world }) hreset hsturdy (!·.awaitsSwap)

theorem Reachable.awaitUnit {t : Timeline (Worker υ π α)}
    (h : Reachable actions param t.part t.now) (hsturdy : Sturdy υ) :
    Reachable actions param (awaitUnit t).2.part (awaitUnit t).2.now := by
  let asked := t.act fun s now w => (s.borrow now, w)
  have hasked : Reachable actions param asked.part asked.now := h.act .borrow t.world trivial
  have hwaited := hasked.await hsturdy isLent
  exact hwaited.act .giveBack t.world trivial

end Worker
end EdgeAgent
