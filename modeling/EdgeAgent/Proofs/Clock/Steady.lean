import EdgeAgent.Agent.Basic

/-! # What is due stays due

Time may pass up to the instant of the next turn. Until then every part keeps the timer
that it waits for, so the turn that comes is the one that was due.
-/

namespace EdgeAgent

namespace Timer

/-- What is due keeps its timer until it rings, and nothing comes to be due by itself. -/
def Steady (due : Nat → Option Timer) : Prop :=
  ∀ now later, now ≤ later →
    (due now = none → due later = none) ∧
      ∀ timer, due now = some timer → later ≤ max now timer.rings → due later = some timer

theorem steady_none : Steady fun _ => none := fun _ _ _ => ⟨fun _ => rfl, nofun⟩

theorem steady_some (timer : Timer) : Steady fun _ => some timer := by
  intro now later _
  exact ⟨nofun, fun _ h _ => h⟩

theorem steady_present (rank : Rank) : Steady fun now => some ⟨now, rank⟩ := by
  intro now later hle
  refine ⟨nofun, ?_⟩
  rintro timer ⟨⟩ hlater
  have hsame : later = now := by simp only at hlater; omega
  rw [hsame]

theorem rings_le_of_precedes {a b : Timer} (h : a.precedes b = true) : a.rings ≤ b.rings := by
  rcases precedes_iff.mp h with hlt | ⟨heq, _⟩
  · omega
  · omega

theorem sooner_some (a b : Timer) :
    Timer.sooner (some a) (some b) = some (if a.precedes b then a else b) := by
  unfold Timer.sooner isFirst
  dsimp only
  split <;> rfl

theorem rings_first (a b : Timer) :
    (if a.precedes b then a else b).rings ≤ a.rings ∧
      (if a.precedes b then a else b).rings ≤ b.rings := by
  have htotal := precedes_total a b
  split
  case isTrue hab => exact ⟨Nat.le_refl _, rings_le_of_precedes hab⟩
  case isFalse hab => exact ⟨rings_le_of_precedes (htotal.resolve_left hab), Nat.le_refl _⟩

theorem rings_firstRow {β : Type} {due : β → Option Timer} {rows : List (String × β)}
    {row : String × β} (hrow : row ∈ rows) {timer : Timer} (hdue : due row.2 = some timer) :
    ∃ found, firstRow due rows = some found ∧ found.2.rings ≤ timer.rings := by
  induction rows with
  | nil => cases hrow
  | cons head rows ih =>
      obtain ⟨name, x⟩ := head
      simp only [firstRow]
      rcases List.mem_cons.mp hrow with rfl | hrest
      · rw [hdue]
        cases firstRow due rows with
        | none => exact ⟨_, rfl, Nat.le_refl _⟩
        | some found =>
            refine ⟨_, rfl, ?_⟩
            have hfirst := (rings_first timer found.2).1
            split
            case isTrue => exact Nat.le_refl _
            case isFalse hlater => rwa [if_neg hlater] at hfirst
      · obtain ⟨found, hfound, hle⟩ := ih hrest
        rw [hfound]
        cases due x with
        | none => exact ⟨found, rfl, hle⟩
        | some a =>
            refine ⟨_, rfl, ?_⟩
            have hfirst := (rings_first a found.2).2
            split
            case isTrue hsooner =>
                rw [if_pos hsooner] at hfirst
                exact Nat.le_trans hfirst hle
            case isFalse => exact hle

theorem Steady.sooner {f g : Nat → Option Timer} (hf : Steady f) (hg : Steady g) :
    Steady fun now => Timer.sooner (f now) (g now) := by
  intro now later hle
  obtain ⟨hfnone, hfsome⟩ := hf now later hle
  obtain ⟨hgnone, hgsome⟩ := hg now later hle
  cases hfa : f now with
  | none =>
      have hfl := hfnone hfa
      dsimp only
      rw [hfa, hfl]
      exact ⟨hgnone, hgsome⟩
  | some a =>
      have hfl := hfsome a hfa
      cases hgb : g now with
      | none =>
          have hgl := hgnone hgb
          dsimp only
          rw [hfa, hgb, hgl]
          refine ⟨nofun, ?_⟩
          rintro timer ⟨⟩ hlater
          rw [hfl hlater]
          rfl
      | some b =>
          have hgl := hgsome b hgb
          have hrings := rings_first a b
          dsimp only
          rw [hfa, hgb, sooner_some]
          refine ⟨nofun, ?_⟩
          intro timer htimer hlater
          rw [Option.some.inj htimer] at hrings
          -- The sooner one rings before the other one does, so neither has changed.
          rw [hfl (by omega), hgl (by omega), sooner_some]
          exact htimer

theorem firstRow_steady {β : Type} {due : β → Nat → Option Timer}
    {rows : List (String × β)} (h : ∀ row ∈ rows, Steady (due row.2)) {now later : Nat}
    (hle : now ≤ later) :
    (firstRow (due · now) rows = none → firstRow (due · later) rows = none) ∧
      ∀ name timer, firstRow (due · now) rows = some (name, timer) →
        later ≤ max now timer.rings → firstRow (due · later) rows = some (name, timer) := by
  induction rows with
  | nil =>
      refine ⟨fun _ => rfl, fun name timer htimer => ?_⟩
      cases htimer
  | cons row rows ih =>
      obtain ⟨n, x⟩ := row
      obtain ⟨hnone, hsome⟩ := h (n, x) List.mem_cons_self now later hle
      obtain ⟨ihnone, ihsome⟩ := ih fun row hrow => h row (List.mem_cons_of_mem _ hrow)
      simp only [firstRow]
      cases hx : due x now with
      | none =>
          rw [hnone hx]
          exact ⟨ihnone, ihsome⟩
      | some a =>
          cases hr : firstRow (due · now) rows with
          | none =>
              rw [ihnone hr]
              constructor
              · intro hnever
                cases hnever
              · rintro name timer ⟨⟩ hlater
                rw [hsome a hx hlater]
          | some found =>
              obtain ⟨other, b⟩ := found
              have hrings := rings_first a b
              constructor
              · intro hnever
                cases hnever
              · intro name timer htimer hlater
                have hfirst : timer = if a.precedes b then a else b := by
                  dsimp only at htimer
                  split at htimer <;> cases htimer <;> simp [*]
                rw [← hfirst] at hrings
                rw [hsome a hx (by omega), ihsome other b hr (by omega)]
                exact htimer

theorem Steady.firstRow {β : Type} (due : β → Nat → Option Timer) {rows : List (String × β)}
    (h : ∀ row ∈ rows, Steady (due row.2)) :
    Steady fun now => (Timer.firstRow (due · now) rows).map (·.2) := by
  intro now later hle
  obtain ⟨hnone, hsome⟩ := firstRow_steady h hle
  refine ⟨?_, ?_⟩
  · intro hfirst
    dsimp only
    rw [hnone (Option.map_eq_none_iff.mp hfirst)]
    rfl
  · intro timer htimer hlater
    obtain ⟨⟨name, other⟩, hfound, hsame⟩ := Option.map_eq_some_iff.mp htimer
    cases hsame
    dsimp only
    rw [hsome name other hfound hlater]
    rfl

end Timer

/-! ## The parts of an agent -/

open Timer

theorem Station.due_steady {μ : Type} [Monitor μ] (s : Station μ) : Steady s.due := by
  have hloop : Steady s.loopDue := by
    unfold Station.loopDue
    cases s.loop with
    | absent | passing | ended => exact steady_none
    | spawned instant => exact steady_some _
    | asleep wake =>
        cases s.stopping with
        | false => exact steady_some wake
        | true => exact steady_present .behind
  have hpass : Steady s.passDue := by
    unfold Station.passDue
    cases s.underWay with
    | some p => exact steady_some p.ending
    | none =>
        cases s.isWanted with
        | false => exact steady_none
        | true => exact steady_present .behind
  exact hloop.sooner hpass

theorem Telemetry.due_steady {μ : Type} [Monitor μ] (t : Telemetry μ) : Steady t.due := by
  unfold Telemetry.due
  cases t.canGoOn with
  | true => exact steady_present .ahead
  | false => exact Steady.firstRow Station.due fun row _ => row.2.due_steady

theorem Duty.due_steady (d : Duty) : Steady (Timed.due d) := by
  cases d with
  | telemetry t => exact t.due_steady
  | commissioner c => exact steady_none

theorem Worker.due_steady {υ π α : Type} [Craft υ π α] [Timed υ]
    (hunit : ∀ u : υ, Steady (Timed.due u)) (s : Worker υ π α) : Steady s.due := by
  have hloop : Steady s.loopDue := by
    unfold Worker.loopDue
    cases s.loop with
    | absent | ended => exact steady_none
    | spawned instant => exact steady_some _
    | asleep wake =>
        cases s.stopping with
        | false => exact steady_some wake
        | true => exact steady_present .behind
    | claiming since =>
        cases s.hasUnit with
        | false => exact steady_none
        | true => exact steady_present .behind
    | cycling since action rest ending course => exact steady_some ending
  exact hloop.sooner (hunit s.unit)

theorem Crew.due_steady {υ π α : Type} [Craft υ π α] [Timed υ]
    (hunit : ∀ u : υ, Steady (Timed.due u)) (c : Crew υ π α) : Steady c.due :=
  Steady.firstRow Worker.due fun row _ => row.2.due_steady hunit

namespace Agent

theorem crew_due_steady (a : Agent) : Steady a.crew.due := a.crew.due_steady Duty.due_steady

theorem rings_le_loopDue {a : Agent} {now : Nat} {timer wake : Timer}
    (hdue : a.due now = some timer) (hwake : a.loopDue now = some wake) :
    timer.rings ≤ wake.rings := by
  unfold due at hdue
  rw [hwake] at hdue
  cases hcrew : a.crew.due now with
  | none =>
      rw [hcrew] at hdue
      cases hdue
      exact Nat.le_refl _
  | some other =>
      rw [hcrew, sooner_some] at hdue
      cases hdue
      exact (rings_first wake other).1

/-- A loop that waits for a timer takes its turn when this rings. -/
theorem turn_on_time {a : Agent} {now : Nat} {timer wake : Timer}
    (hwake : ∀ now, a.loopDue now = some wake) (hnow : now ≤ wake.rings)
    (hdue : a.due now = some timer)
    (hfirst : isFirst (a.loopDue (max now timer.rings)) (a.crew.due (max now timer.rings)) = true) :
    max now timer.rings = wake.rings := by
  have hsteady := a.crew_due_steady now (max now timer.rings) (Nat.le_max_left ..)
  have hrings := rings_le_loopDue hdue (hwake now)
  rw [hwake] at hfirst
  unfold due at hdue
  rw [hwake] at hdue
  cases hcrew : a.crew.due now with
  | none =>
      rw [hcrew] at hdue
      cases hdue
      exact Nat.max_eq_right hnow
  | some other =>
      rw [hcrew, sooner_some] at hdue
      split at hdue
      case isTrue =>
          cases hdue
          exact Nat.max_eq_right hnow
      case isFalse hlater =>
          -- The workers' turn was due first, and it still is.
          cases hdue
          rw [hsteady.2 _ hcrew (Nat.le_refl _)] at hfirst
          exact absurd hfirst hlater

end Agent
end EdgeAgent
