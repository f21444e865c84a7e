import EdgeAgent.Proofs.Worker.Moves

/-! # Units with a log

A logged unit keeps a log of the calls that it has answered. A worker does with it
what it does with the unit alone, so what is shown of the log is true of any unit.
-/

namespace EdgeAgent

/-- An action that has been performed. -/
structure Call (α : Type) where
  action : α
  outcome : Outcome UnitError

structure Logged (υ α : Type) where
  unit : υ
  calls : List (Call α)

namespace Logged

variable {υ π α : Type}

def course (c : Course υ UnitError) (action : α) : Course (Logged υ α) UnitError where
  pause := c.pause
  finish u w :=
    let (outcome, unit, w) := c.finish u.unit w
    (outcome, ⟨unit, u.calls ++ [⟨action, outcome⟩]⟩, w)

instance [Craft υ π α] : Craft (Logged υ α) π α where
  capabilities := Craft.capabilities υ
  build param now w :=
    match Craft.build param now w with
    | (.ok unit, w) => (.ok ⟨unit, []⟩, w)
    | (.error e, w) => (.error e, w)
  perform u action now w :=
    let (c, w) := Craft.perform u.unit action now w
    (course c action, w)
  actionName := Craft.actionName υ

instance [Timed υ] : Timed (Logged υ α) where
  due u := Timed.due u.unit
  turn u now w :=
    let (unit, w) := Timed.turn u.unit now w
    ({ u with unit }, w)

theorem calls_of_build [Craft υ π α] {param : π} {now : Nat} {w w' : World} {u : Logged υ α}
    (h : Craft.build param now w = (.ok u, w')) : u.calls = [] := by
  simp only [Craft.build] at h
  rcases hbuild : Craft.build (υ := υ) param now w with ⟨unit | unit, w''⟩
  all_goals rw [hbuild] at h; cases h
  rfl

theorem calls_of_finish {c : Course υ UnitError} {action : α} {u u' : Logged υ α} {w w' : World}
    {outcome : Outcome UnitError} (h : (course c action).finish u w = (outcome, u', w')) :
    u'.calls = u.calls ++ [⟨action, outcome⟩] := by
  cases h
  rfl

def plain (c : Course (Logged υ α) UnitError) : Course υ UnitError where
  pause := c.pause
  finish u w :=
    let (outcome, u, w) := c.finish ⟨u, []⟩ w
    (outcome, u.unit, w)

end Logged

namespace Worker

variable {υ π α : Type}

/-! ## A worker without the log -/

def Claim.forget : Claim (Logged υ α) π → Claim υ π
  | .cycle => .cycle
  | .swap fresh param starts => .swap fresh.unit param starts
  | .guest => .guest

def Loop.forget : Loop (Logged υ α) α → Loop υ α
  | .absent => .absent
  | .spawned instant => .spawned instant
  | .asleep timer => .asleep timer
  | .claiming since => .claiming since
  | .cycling since action rest ending c => .cycling since action rest ending (Logged.plain c)
  | .ended => .ended

def forget (s : Worker (Logged υ α) π α) : Worker υ π α :=
  { s with unit := s.unit.unit, loop := s.loop.forget, claims := s.claims.map Claim.forget }

theorem isAlive_forget (s : Worker (Logged υ α) π α) : s.forget.isAlive = s.isAlive := by
  cases hloop : s.loop <;> simp [isAlive, forget, Loop.forget, hloop]

theorem isRunning_forget (s : Worker (Logged υ α) π α) : s.forget.isRunning = s.isRunning := by
  rw [isRunning, isRunning, isAlive_forget]
  rfl

theorem hasUnit_forget (s : Worker (Logged υ α) π α) : s.forget.hasUnit = s.hasUnit := by
  rcases hclaims : s.claims with _ | ⟨c | c | c, rest⟩ <;>
    simp [hasUnit, forget, Claim.forget, hclaims]

theorem isLent_forget (s : Worker (Logged υ α) π α) : s.forget.isLent = s.isLent := by
  rcases hclaims : s.claims with _ | ⟨c | c | c, rest⟩ <;>
    simp [isLent, forget, Claim.forget, hclaims]

theorem forget_start (s : Worker (Logged υ α) π α) (now : Nat) :
    (s.start now).forget = s.forget.start now := by
  unfold start
  rw [isRunning_forget]
  split
  case isTrue h => exact (if_pos h).symm
  case isFalse h => exact (if_neg h).symm

theorem forget_replace (s : Worker (Logged υ α) π α) (fresh : Logged υ α) (param : π)
    (starts : Bool) (now : Nat) :
    (s.replace fresh param starts now).forget = s.forget.replace fresh.unit param starts now := by
  have hforget := isRunning_forget s
  cases hrunning : s.isRunning with
  | true =>
      rw [replace_of_running hrunning, replace_of_running (hforget.trans hrunning)]
      rfl
  | false =>
      rw [replace_of_not_running hrunning, replace_of_not_running (hforget.trans hrunning)]
      cases starts with
      | false => rfl
      | true => exact forget_start ..

theorem forget_serveSwaps (now : Nat) (cs : List (Claim (Logged υ α) π))
    (s : Worker (Logged υ α) π α) :
    (serveSwaps now cs s).forget = serveSwaps now (cs.map Claim.forget) s.forget := by
  induction cs generalizing s with
  | nil => rfl
  | cons c cs ih =>
      cases c with
      | swap fresh param starts =>
          rw [serveSwaps, ih, forget_replace]
          rfl
      | cycle => rfl
      | guest => rfl

theorem forget_release (s : Worker (Logged υ α) π α) (now : Nat) :
    (s.release now).forget = s.forget.release now := by
  rw [release, forget_serveSwaps, List.map_drop]
  rfl

theorem forget_claim (s : Worker (Logged υ α) π α) (c : Claim (Logged υ α) π) (now : Nat) :
    (s.claim c now).forget = s.forget.claim c.forget now := by
  rw [claim, forget_serveSwaps, List.map_append]
  rfl

theorem forget_sleep (s : Worker (Logged υ α) π α) (span now : Nat) (w : World) :
    (s.sleep span now w).forget = s.forget.sleep span now w := by
  unfold sleep
  dsimp only
  split
  case isTrue h => exact (if_pos h).symm
  case isFalse h => exact (if_neg h).symm

theorem forget_wake (s : Worker (Logged υ α) π α) (now : Nat) (w : World) :
    (s.wake now w).forget = s.forget.wake now w := by
  unfold wake
  split
  case isTrue h => exact (if_pos h).symm
  case isFalse h => exact (forget_sleep ..).trans (if_neg h).symm

theorem loopDue_forget (s : Worker (Logged υ α) π α) (now : Nat) :
    s.forget.loopDue now = s.loopDue now := by
  unfold loopDue
  rw [hasUnit_forget]
  cases hloop : s.loop <;> simp [forget, Loop.forget, hloop]

variable [Craft υ π α]

theorem Orderly.logged {s : Worker (Logged υ α) π α} (h : s.Orderly) {since : Nat} {action : α}
    {rest : List α} {ending : Timer} {course : Course (Logged υ α) UnitError}
    (hloop : s.loop = .cycling since action rest ending course) :
    ∃ c, course = Logged.course c action := by
  obtain ⟨unit, instant, w, rfl⟩ := h.begun since action rest ending course hloop
  exact ⟨(Craft.perform unit.unit action instant w).1, rfl⟩

theorem crashes_forget {s : Worker (Logged υ α) π α} (h : s.Orderly) (w : World) :
    s.forget.crashes w = s.crashes w := by
  have hforget : s.forget.loop = s.loop.forget := rfl
  unfold crashes
  cases hloop : s.loop with
  | cycling since action rest ending course =>
      obtain ⟨c, rfl⟩ := h.logged hloop
      rw [hforget, hloop]
      rfl
  | _ => rw [hforget, hloop]; rfl

theorem admits_forget [Timed υ] {s : Worker (Logged υ α) π α} (h : s.Orderly) (now : Nat) (w : World)
    (d : Deed π) : s.forget.Admits now w d ↔ s.Admits now w d := by
  cases d with
  | turn =>
      unfold Admits
      rw [loopDue_forget, crashes_forget h]
      rfl
  | _ => exact Iff.rfl

abbrev forgetting : Worker (Logged υ α) π α × World → Worker υ π α × World :=
  Prod.map forget id

theorem forget_goOn (s : Worker (Logged υ α) π α) (since : Nat) (rest : List α) (now : Nat)
    (w : World) : forgetting (s.goOn since rest now w) = s.forget.goOn since rest now w := by
  cases rest with
  | nil =>
      have hrelease := forget_release (s.sleep (s.period - (now - since)) now w) now
      rw [forget_sleep] at hrelease
      exact congrArg (·, w) hrelease
  | cons action rest => rfl

theorem forget_finish (s : Worker (Logged υ α) π α) (since : Nat) (action : α) (rest : List α)
    (c : Course υ UnitError) (now : Nat) (w : World) :
    forgetting (s.finish since action rest (Logged.course c action) now w) =
      s.forget.finish since action rest c now w := by
  unfold finish
  -- The unit alone decides how the call ends; the log only takes it down.
  rcases hfinish : c.finish s.unit.unit w with ⟨outcome, unit, w'⟩
  have hplain : c.finish s.forget.unit w = (outcome, unit, w') := hfinish
  have hlogged : (Logged.course c action).finish s.unit w =
      (outcome, ⟨unit, s.unit.calls ++ [⟨action, outcome⟩]⟩, w') := by
    simp [Logged.course, hfinish]
  rw [hplain, hlogged]
  cases outcome with
  | done => exact forget_goOn ..
  | crashed => exact congrArg (·, w') (forget_release ..)
  | failed e =>
      dsimp only
      split
      case isTrue h =>
        refine Eq.trans ?_ (if_pos h).symm
        exact congrArg (·, w') (forget_release ..)
      case isFalse h => exact (forget_goOn ..).trans (if_neg h).symm

theorem forget_loopTurn {s : Worker (Logged υ α) π α} (h : s.Orderly) (now : Nat) (w : World) :
    forgetting (s.loopTurn now w) = s.forget.loopTurn now w := by
  have hforget : s.forget.loop = s.loop.forget := rfl
  have hbegin (t : Worker (Logged υ α) π α) (since : Nat) :
      forgetting (if t.hasUnit then t.goOn since t.actions now w else (t, w)) =
        if t.forget.hasUnit then t.forget.goOn since t.forget.actions now w else (t.forget, w) := by
    rw [hasUnit_forget]
    split
    · exact forget_goOn ..
    · rfl
  unfold loopTurn
  cases hloop : s.loop with
  | absent | ended => rw [hforget, hloop]; rfl
  | spawned instant =>
      rw [hforget, hloop]
      exact congrArg (·, w) (forget_wake ..)
  | asleep timer =>
      rw [hforget, hloop]
      dsimp only [Loop.forget]
      split
      case isTrue hstopping => exact (if_pos hstopping).symm
      case isFalse hstopping =>
          refine Eq.trans ?_ (if_neg hstopping).symm
          have hclaimed := hbegin (({ s with loop := .claiming now } : Worker _ π α).claim .cycle now) now
          rw [forget_claim] at hclaimed
          exact hclaimed
  | claiming since =>
      rw [hforget, hloop]
      exact hbegin s since
  | cycling since action rest ending course =>
      obtain ⟨c, rfl⟩ := h.logged hloop
      rw [hforget, hloop]
      exact forget_finish ..

theorem forget_turn [Timed υ] {s : Worker (Logged υ α) π α} (h : s.Orderly) (now : Nat)
    (w : World) : forgetting (s.turn now w) = s.forget.turn now w := by
  unfold turn
  rw [loopDue_forget]
  split
  case isTrue hfirst => exact (forget_loopTurn h now w).trans (if_pos hfirst).symm
  case isFalse hfirst => exact (if_neg hfirst).symm

theorem forget_act [Timed υ] {s : Worker (Logged υ α) π α} (h : s.Orderly) (now : Nat)
    (w : World) (d : Deed π) : forgetting (s.act now w d) = s.forget.act now w d := by
  cases d with
  | start => exact congrArg (·, w) (forget_start ..)
  | stop | setPeriod => rfl
  | confirmEnd =>
      simp only [act, confirmEnd]
      rw [isAlive_forget]
      split <;> rfl
  | reset param starts =>
      have hparam : s.forget.param = s.param := rfl
      simp only [act, reset, hparam, Craft.build]
      rcases Craft.build (υ := υ) (param.getD s.param) now w with ⟨unit | unit, w'⟩
      · rfl
      · exact congrArg (·, w') (forget_claim ..)
  | borrow => exact congrArg (·, w) (forget_claim ..)
  | giveBack =>
      simp only [act, giveBack]
      rw [isLent_forget]
      split
      · exact congrArg (·, w) (forget_release ..)
      · rfl
  | turn => exact forget_turn h now w

/-! ## Every worker has a log -/

theorem Made.logged [BEq α] {actions : List α} {param : π} {s : Worker υ π α} {now : Nat}
    (h : Made actions param s now) :
    ∃ t : Worker (Logged υ α) π α, Made actions param t now ∧ t.forget = s := by
  cases h with
  | @new name period now delay w w' s stopTimeout hnew =>
      unfold Worker.new at hnew
      split at hnew
      case isTrue => cases hnew
      case isFalse hperiod =>
          rcases hbuild : Craft.build (υ := υ) param now w with ⟨unit | unit, w''⟩
          all_goals rw [hbuild] at hnew; cases hnew
          let t : Worker (Logged υ α) π α := {
            name, param
            unit := ⟨unit, []⟩
            actions := actions.filter (Craft.capabilities υ param).contains
            period := Duration.wholeMillis period
            initialDelay := min delay.span period
            stopTimeout := usualStopTimeout }
          have hlogged : Worker.new name param actions period delay now w = (.ok t, w') := by
            simp only [Worker.new, hperiod, Craft.build, hbuild, if_false]
            rfl
          exact ⟨_, .new stopTimeout hlogged, rfl⟩

variable [Timed υ]

theorem Leads.logged {s : Worker (Logged υ α) π α} {t : Worker υ π α} {now reached : Nat}
    {ds : List (Deed π)} (hleads : Leads s.forget now ds t reached) (horderly : s.Orderly) :
    ∃ u : Worker (Logged υ α) π α, Leads s now ds u reached ∧ u.Orderly ∧ u.forget = t := by
  induction hleads with
  | refl => exact ⟨s, .refl, horderly, rfl⟩
  | later _ hle ih =>
      obtain ⟨u, hu, hordered, hforget⟩ := ih
      exact ⟨u, hu.later hle, hordered, hforget⟩
  | @act ds t reached d w _ hadmits ih =>
      obtain ⟨u, hu, hordered, rfl⟩ := ih
      have hadmitted := (admits_forget hordered reached w d).mp hadmits
      have hnext := (hordered.act_moves reached w d hadmitted).orderly hordered
      exact ⟨_, hu.act d w hadmitted, hnext, congrArg Prod.fst (forget_act hordered reached w d)⟩

/-- Whatever a worker does, it does so with a log. -/
theorem Reachable.logged [BEq α] {actions : List α} {param : π} {s : Worker υ π α} {now : Nat}
    (h : Reachable actions param s now) :
    ∃ t : Worker (Logged υ α) π α, Reachable actions param t now ∧ t.forget = s := by
  obtain ⟨first, made, ds, hfirst, hleads⟩ := h
  obtain ⟨t, ht, rfl⟩ := hfirst.logged
  obtain ⟨u, hu, _, hforget⟩ := hleads.logged ht.orderly
  exact ⟨u, ⟨t, made, ds, ht, hu⟩, hforget⟩

end Worker
end EdgeAgent
