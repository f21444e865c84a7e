import EdgeAgent.Proofs.Clock.Waits
import Mathlib.Data.Finset.Lattice.Fold
import Mathlib.Order.Lattice.Nat

/-! # Waiting for several things at once

The turns of a timeline come one after the other, whatever is waited for. A wait ends
somewhere on the way. Where it is for several things, it ends with the last of them, or
at its limit, and what has come by then does not depend on what else is waited for.
-/

namespace EdgeAgent.Timeline

variable {σ : Type} [Timed σ]

/-! ## Turns -/

/-- After some turns, as far as there are any. -/
def turns (t : Timeline σ) : Nat → Timeline σ
  | 0 => t
  | n + 1 => ((t.turns n).step? none).getD (t.turns n)

theorem step?_none_of_step? {t u : Timeline σ} {limit : Option Nat} (h : t.step? limit = some u) :
    t.step? none = some u := by
  obtain ⟨timer, hdue, _, hu⟩ := step?_eq_some_iff.mp h
  exact step?_eq_some_iff.mpr ⟨timer, hdue, rfl, hu⟩

theorem now_le_of_step? {t u : Timeline σ} {limit : Option Nat} (h : t.step? limit = some u) :
    t.now ≤ u.now := by
  obtain ⟨timer, _, _, rfl⟩ := step?_eq_some_iff.mp h
  exact Nat.le_max_left _ _

theorem le_of_step? {t u : Timeline σ} {limit : Nat} (h : t.step? (some limit) = some u)
    (hnow : t.now ≤ limit) : u.now ≤ limit := by
  obtain ⟨timer, _, hlimit, rfl⟩ := step?_eq_some_iff.mp h
  exact Nat.max_le.mpr ⟨hnow, by simpa using hlimit⟩

theorem step?_of_le {t u : Timeline σ} {limit : Nat} (h : t.step? none = some u)
    (hu : u.now ≤ limit) : t.step? (some limit) = some u := by
  obtain ⟨timer, hdue, _, rfl⟩ := step?_eq_some_iff.mp h
  refine step?_eq_some_iff.mpr ⟨timer, hdue, ?_, rfl⟩
  simpa using (Nat.le_max_right t.now timer.rings).trans hu

theorem turns_succ {t u : Timeline σ} {n : Nat} {limit : Option Nat}
    (h : (t.turns n).step? limit = some u) : t.turns (n + 1) = u := by
  rw [turns, step?_none_of_step? h, Option.getD_some]

theorem turns_of_step? {t u : Timeline σ} {limit : Option Nat} (h : t.step? limit = some u)
    (n : Nat) : u.turns n = t.turns (n + 1) := by
  induction n with
  | zero =>
      have hfirst : (t.turns 0).step? limit = some u := h
      exact (turns_succ hfirst).symm
  | succ n ih =>
      have hnext (t : Timeline σ) (n : Nat) :
          t.turns (n + 1) = ((t.turns n).step? none).getD (t.turns n) := rfl
      rw [hnext u n, hnext t (n + 1), ih]

theorem turns_keep {P : Timeline σ → Prop} (htake : ∀ t instant, P t → P (t.take instant))
    {t : Timeline σ} (h : P t) (n : Nat) : P (t.turns n) := by
  induction n with
  | zero => exact h
  | succ n ih =>
      rw [turns]
      cases hstep : (t.turns n).step? none with
      | none => exact ih
      | some u =>
          obtain ⟨timer, _, _, rfl⟩ := step?_eq_some_iff.mp hstep
          exact htake _ _ ih

theorem now_le_turns (t : Timeline σ) {m n : Nat} (h : m ≤ n) :
    (t.turns m).now ≤ (t.turns n).now := by
  induction h with
  | refl => exact Nat.le_refl _
  | @step n _ ih =>
      refine ih.trans ?_
      rw [turns]
      cases hstep : (t.turns n).step? none with
      | none => exact Nat.le_refl _
      | some u => exact now_le_of_step? hstep

/-! ## Waits -/

/-- A wait until a limit ends after some turns, before each of which it was not over. -/
structure Reaches (t : Timeline σ) (limit : Option Nat) (done : σ → Bool) (n : Nat)
    (u : Timeline σ) : Prop where
  eq : u = t.turns n
  before : ∀ m < n, done (t.turns m).part = false
  steps : ∀ m < n, (t.turns m).step? limit = some (t.turns (m + 1))

theorem exists_reaches (t : Timeline σ) (limit : Option Nat) (done : σ → Bool) (fuel : Nat) :
    ∃ n, t.Reaches limit done n (t.run limit done fuel) := by
  have hstays (t : Timeline σ) : t.Reaches limit done 0 t := ⟨rfl, nofun, nofun⟩
  induction fuel generalizing t with
  | zero => exact ⟨0, hstays t⟩
  | succ fuel ih =>
      rw [run]
      split
      · exact ⟨0, hstays t⟩
      · rename_i hnot
        cases hstep : t.step? limit with
        | none => exact ⟨0, hstays t⟩
        | some u =>
            obtain ⟨n, heq, hbefore, hsteps⟩ := ih u
            have hturns := turns_of_step? hstep
            refine ⟨n + 1, heq.trans (hturns n), fun m hm => ?_, fun m hm => ?_⟩
            · cases m with
              | zero => exact eq_false_of_ne_true hnot
              | succ m => exact hturns m ▸ hbefore m (Nat.lt_of_succ_lt_succ hm)
            · cases m with
              | zero => exact hstep.trans (congrArg some (hturns 0))
              | succ m =>
                  rw [← hturns, ← hturns]
                  exact hsteps m (Nat.lt_of_succ_lt_succ hm)

variable {t : Timeline σ} {limit n : Nat} {done : σ → Bool} {u : Timeline σ}

theorem Reaches.now_le (h : t.Reaches (some limit) done n u) (hnow : t.now ≤ limit) :
    u.now ≤ limit := by
  have hall (m : Nat) (hm : m ≤ n) : (t.turns m).now ≤ limit := by
    induction m with
    | zero => exact hnow
    | succ m ih => exact le_of_step? (h.steps m hm) (ih (Nat.le_of_succ_le hm))
  exact h.eq ▸ hall n (Nat.le_refl n)

/-- Something comes to hold with a turn, and not before. -/
structure Comes (t : Timeline σ) (p : σ → Bool) (n : Nat) : Prop where
  holds : p (t.turns n).part = true
  before : ∀ m < n, p (t.turns m).part = false
  steps : ∀ m < n, (t.turns m).step? none = some (t.turns (m + 1))

/-- Something comes to hold, and takes a span to do so. -/
def ComesAfter (t : Timeline σ) (p : σ → Bool) (span : Nat) : Prop :=
  ∃ n, t.Comes p n ∧ (t.turns n).now = t.now + span

/-- Something that has come to hold holds from then on. -/
def Lasts (t : Timeline σ) (p : σ → Bool) : Prop :=
  ∀ n, p (t.turns n).part = true → p (t.turns (n + 1)).part = true

theorem Lasts.of_le {p : σ → Bool} (h : t.Lasts p) {m n : Nat} (hle : m ≤ n)
    (hm : p (t.turns m).part = true) : p (t.turns n).part = true := by
  induction hle with
  | refl => exact hm
  | step _ ih => exact h _ ih

/-- Whoever waits without a limit until something holds sees how long it takes. -/
theorem comesAfter_of_await {p : σ → Bool} {span : Nat} (hholds : p (t.await p).part = true)
    (hnow : (t.await p).now = t.now + span) : t.ComesAfter p span := by
  obtain ⟨n, heq, hbefore, hsteps⟩ := exists_reaches t none p t.patience
  have hend : t.await p = t.turns n := heq
  exact ⟨n, ⟨hend ▸ hholds, hbefore, hsteps⟩, hend ▸ hnow⟩

/-- The wait is over because of what was waited for, or nothing comes by the limit. -/
def Settles (t : Timeline σ) (limit : Nat) (done : σ → Bool) : Prop :=
  done (t.run (some limit) done t.patience).part = true ∨
    ((t.run (some limit) done t.patience).step? (some limit)).isNone = true

section

variable (hsettles : t.Settles limit done)
include hsettles

theorem Settles.done_of_step? (hn : t.Reaches (some limit) done n
    (t.run (some limit) done t.patience)) {u : Timeline σ}
    (hstep : (t.turns n).step? none = some u) (hu : u.now ≤ limit) :
    done (t.turns n).part = true := by
  unfold Settles at hsettles
  rw [hn.eq] at hsettles
  refine hsettles.resolve_right fun hnone => ?_
  rw [step?_of_le hstep hu] at hnone
  cases hnone

variable {p : σ → Bool}
  (hdone : ∀ n, done (t.turns n).part = true → p (t.turns n).part = true)
include hdone

theorem Settles.holds_iff (hlasts : t.Lasts p) (hnow : t.now ≤ limit) {span : Nat}
    (hp : t.ComesAfter p span) :
    p (t.run (some limit) done t.patience).part = true ↔ t.now + span ≤ limit := by
  obtain ⟨k, hk⟩ := exists_reaches t (some limit) done t.patience
  obtain ⟨n, hn, hspan⟩ := hp
  have hend := hk.now_le hnow
  rw [← hspan]
  constructor
  · intro hholds
    rw [hk.eq] at hholds hend
    have hle : n ≤ k := by
      by_contra hlt
      rw [hn.before k (Nat.lt_of_not_le hlt)] at hholds
      cases hholds
    exact (now_le_turns t hle).trans hend
  · intro hle
    rw [hk.eq]
    by_cases hreached : n ≤ k
    · exact hlasts.of_le hreached hn.holds
    · have hlt := Nat.lt_of_not_le hreached
      have hnext := (now_le_turns t (Nat.succ_le_of_lt hlt)).trans hle
      exact hdone _ (hsettles.done_of_step? hk (hn.steps k hlt) hnext)

theorem Settles.comesAfter_zero (hnow : t.now ≤ limit)
    (hdue : ∀ n, p (t.turns n).part = false →
      ∃ timer, Timed.due (t.turns n).part (t.turns n).now = some timer ∧
        timer.rings ≤ (t.turns n).now) : t.ComesAfter p 0 := by
  obtain ⟨k, hk⟩ := exists_reaches t (some limit) done t.patience
  -- The turn that is due does not move the clock.
  have hstep (n : Nat) (hn : p (t.turns n).part = false) :
      (t.turns n).step? none = some (t.turns (n + 1)) ∧
        (t.turns (n + 1)).now = (t.turns n).now := by
    obtain ⟨timer, htimer, hrings⟩ := hdue n hn
    have htaken : (t.turns n).step? none = some ((t.turns n).take timer.rings) :=
      step?_eq_some_iff.mpr ⟨timer, htimer, rfl, rfl⟩
    rw [turns_succ htaken]
    exact ⟨htaken, Nat.max_eq_left hrings⟩
  have hend : ∃ n, p (t.turns n).part = true := by
    refine ⟨k, ?_⟩
    by_contra hnot
    obtain ⟨htaken, hsame⟩ := hstep k (eq_false_of_ne_true hnot)
    have hlimit : (t.turns k).now ≤ limit := hk.eq ▸ hk.now_le hnow
    exact hnot (hdone _ (hsettles.done_of_step? hk htaken (hsame ▸ hlimit)))
  have hbefore (m : Nat) (hm : m < Nat.find hend) : p (t.turns m).part = false :=
    eq_false_of_ne_true (Nat.find_min hend hm)
  have hclock (m : Nat) (hm : m ≤ Nat.find hend) : (t.turns m).now = t.now := by
    induction m with
    | zero => rfl
    | succ m ih => exact (hstep m (hbefore m hm)).2.trans (ih (Nat.le_of_succ_le hm))
  exact ⟨Nat.find hend, ⟨Nat.find_spec hend, hbefore, fun m hm => (hstep m (hbefore m hm)).1⟩,
    hclock _ (Nat.le_refl _)⟩

end

/-! ## All of them -/

variable {ι : Type} {is : Finset ι} {p : ι → σ → Bool} {e : ι → Nat}

theorem now_of_done
    (hall : ∀ n, done (t.turns n).part = true ↔ ∀ i ∈ is, p i (t.turns n).part = true)
    (hlasts : ∀ i ∈ is, t.Lasts (p i)) (hcomes : ∀ i ∈ is, t.ComesAfter (p i) (e i))
    (hdone : done (t.run (some limit) done t.patience).part = true) :
    (t.run (some limit) done t.patience).now = t.now + is.sup e := by
  obtain ⟨k, hk⟩ := exists_reaches t (some limit) done t.patience
  rw [hk.eq] at hdone ⊢
  apply le_antisymm
  · cases k with
    | zero => exact Nat.le_add_right _ _
    | succ k =>
        -- One of them came with the last turn.
        obtain ⟨i, hi, hlate⟩ : ∃ i ∈ is, p i (t.turns k).part = false := by
          by_contra hnone
          have hsooner : done (t.turns k).part = true := (hall _).mpr fun i hi => by
            by_contra hlate
            exact hnone ⟨i, hi, eq_false_of_ne_true hlate⟩
          rw [hk.before k (Nat.lt_succ_self k)] at hsooner
          cases hsooner
        obtain ⟨n, hn, hspan⟩ := hcomes i hi
        have hle : k + 1 ≤ n := by
          by_contra hlt
          have hthere := (hlasts i hi).of_le (Nat.le_of_lt_succ (Nat.lt_of_not_le hlt)) hn.holds
          rw [hlate] at hthere
          cases hthere
        calc (t.turns (k + 1)).now ≤ (t.turns n).now := now_le_turns t hle
          _ = t.now + e i := hspan
          _ ≤ t.now + is.sup e := Nat.add_le_add_left (Finset.le_sup hi) _
  · have hspans : is.sup e ≤ (t.turns k).now - t.now := by
      refine Finset.sup_le fun i hi => ?_
      obtain ⟨n, hn, hspan⟩ := hcomes i hi
      have hle : n ≤ k := by
        by_contra hlt
        have hthere := (hall _).mp hdone i hi
        rw [hn.before k (Nat.lt_of_not_le hlt)] at hthere
        cases hthere
      have hclock := now_le_turns t hle
      omega
    have hclock := now_le_turns t (Nat.zero_le k)
    have hstart : (t.turns 0).now = t.now := rfl
    omega

/-- The wait for all lasts as long as the longest of them, but no longer than its span. What
takes less than the span has come by its end, and nothing else has. -/
theorem Settles.awaitAtMost {span : Nat} (hspan : 0 < span)
    (hsettles : t.Settles (t.now + span - 1) done)
    (hall : ∀ n, done (t.turns n).part = true ↔ ∀ i ∈ is, p i (t.turns n).part = true)
    (hlasts : ∀ i ∈ is, t.Lasts (p i)) (hcomes : ∀ i ∈ is, t.ComesAfter (p i) (e i)) :
    let u := t.run (some (t.now + span - 1)) done t.patience
    (∀ i ∈ is, p i u.part = true ↔ e i < span) ∧
      (if done u.part then u.now else t.now + span) = t.now + is.sup fun i => min span (e i) := by
  intro u
  obtain ⟨k, hk⟩ := exists_reaches t (some (t.now + span - 1)) done t.patience
  have hend : done u.part = true ↔ ∀ i ∈ is, p i u.part = true := by
    have hu : u = t.turns k := hk.eq
    rw [hu]
    exact hall k
  have hnow : t.now ≤ t.now + span - 1 := by omega
  have hholds (i : ι) (hi : i ∈ is) : p i u.part = true ↔ e i < span := by
    have hdone (n : Nat) (hn : done (t.turns n).part = true) : p i (t.turns n).part = true :=
      (hall n).mp hn i hi
    rw [hsettles.holds_iff hdone (hlasts i hi) hnow (hcomes i hi)]
    omega
  refine ⟨hholds, ?_⟩
  split
  · rename_i hdone
    rw [now_of_done hall hlasts hcomes hdone]
    congr 1
    refine Finset.sup_congr rfl fun i hi => ?_
    have hshort := (hholds i hi).mp (hend.mp hdone i hi)
    exact (Nat.min_eq_right hshort.le).symm
  · rename_i hnot
    obtain ⟨i, hi, hlate⟩ : ∃ i ∈ is, p i u.part ≠ true := by
      by_contra hnone
      refine hnot (hend.mpr fun i hi => ?_)
      by_contra hlate
      exact hnone ⟨i, hi, hlate⟩
    have hlong : span ≤ e i := Nat.le_of_not_lt fun hshort => hlate ((hholds i hi).mpr hshort)
    congr 1
    apply le_antisymm
    · calc span = min span (e i) := (Nat.min_eq_left hlong).symm
        _ ≤ is.sup fun i => min span (e i) := Finset.le_sup (f := fun i => min span (e i)) hi
    · exact Finset.sup_le fun i _ => Nat.min_le_left _ _

end EdgeAgent.Timeline
