import EdgeAgent.Worker.Basic
import Mathlib.Logic.Relation

/-! # What a worker does, move by move

Whatever is done to a worker, from outside or by its loop, is a chain of moves, and
no move changes the state more than once. What holds of a worker in use is shown for
the moves, one by one.
-/

namespace EdgeAgent.Worker

variable {υ π α : Type} [Craft υ π α]

/-! ## How workers are made -/

/-- What is made of a list of actions; how long a stop is waited for may then be set. -/
inductive Made [BEq α] (actions : List α) (param : π) : Worker υ π α → Nat → Prop
  | new {name : String} {period now : Nat} {delay : Delay} {w w' : World}
      {s : Worker υ π α} (stopTimeout : Nat) :
      Worker.new name param actions period delay now w = (.ok s, w') →
        Made actions param { s with stopTimeout } now

theorem Made.spec [BEq α] {actions : List α} {param : π} {s : Worker υ π α} {now : Nat}
    (h : Made actions param s now) :
    s.state = .constructed ∧ s.loop = .absent ∧ s.faults = [] ∧ s.claims = [] ∧
      s.actions = actions.filter (Craft.capabilities υ param).contains ∧
        ∃ w w', Craft.build param now w = (.ok s.unit, w') := by
  cases h with
  | @new name period now delay w w' s stopTimeout hnew =>
      unfold Worker.new at hnew
      split at hnew
      · cases hnew
      · rcases hbuild : Craft.build (υ := υ) param now w with ⟨unit | unit, w''⟩
        all_goals rw [hbuild] at hnew; cases hnew
        exact ⟨rfl, rfl, rfl, rfl, rfl, _, _, hbuild⟩

/-! ## Moves -/

def isCycling (s : Worker υ π α) : Bool :=
  match s.loop with
  | .cycling .. => true
  | _ => false

/-- An action that ends now crashes. -/
def crashes (s : Worker υ π α) (w : World) : Bool :=
  match s.loop with
  | .cycling _ _ _ _ course =>
    match (course.finish s.unit w).1 with
    | .crashed => true
    | .done | .failed _ => false
  | _ => false

def Claim.IsBuilt : Claim υ π → Prop
  | .swap fresh param _ => ∃ now w w', Craft.build param now w = (.ok fresh, w')
  | _ => True

/-- The loop goes on with what is left of a cycle, and keeps the unit. -/
def advance (s : Worker υ π α) (since : Nat) (rest : List α) (now : Nat) (w : World) :
    Worker υ π α :=
  match rest with
  | [] => s.sleep (s.period - (now - since)) now w
  | action :: rest =>
    let (course, w) := Craft.perform s.unit action now w
    { s with loop := .cycling since action rest (course.ending now w.rank) course }

inductive Move [Timed υ] (now : Nat) (s : Worker υ π α) : Worker υ π α → Prop
  | start : Move now s (s.start now)
  | stop : Move now s s.stop
  | confirmEnd : Move now s s.confirmEnd.2
  | setPeriod (period : Nat) : Move now s (s.setPeriod period)
  /-- Someone waits for the end of a cycle. -/
  | ask (c : Claim υ π) : c.IsBuilt → Move now s { s with claims := s.claims ++ [c] }
  /-- The unit goes to the first one who waits. -/
  | pass (claims : List (Claim υ π)) :
      s.isCycling = false → (∀ c ∈ claims, c.IsBuilt) → Move now s { s with claims }
  | renew (fresh : υ) (param : π) (starts : Bool) :
      s.isCycling = false → (Claim.swap fresh param starts).IsBuilt →
        Move now s (s.replace fresh param false now)
  /-- The unit does something by itself. -/
  | live (w : World) : Move now s { s with unit := (Timed.turn s.unit now w).1 }
  | wake (instant : Nat) (w : World) : s.loop = .spawned instant → Move now s (s.wake now w)
  | leave (timer : Timer) : s.loop = .asleep timer → s.stopping = true → Move now s s.leave
  | reach (timer : Timer) : s.loop = .asleep timer → Move now s { s with loop := .claiming now }
  | begin (since : Nat) (w : World) :
      s.loop = .claiming since → s.hasUnit = true → Move now s (s.advance since s.actions now w)
  | done {since : Nat} {action : α} {rest : List α} {ending : Timer}
      {course : Course υ UnitError} {w w' : World} {unit : υ} :
      s.loop = .cycling since action rest ending course → course.finish s.unit w = (.done, unit, w') →
        Move now s (({ s with unit } : Worker υ π α).advance since rest now w')
  /-- An action fails, and the worker endures it. -/
  | endure {since : Nat} {action : α} {rest : List α} {ending : Timer}
      {course : Course υ UnitError} {w w' : World} {unit : υ} {e : UnitError} :
      s.loop = .cycling since action rest ending course →
        course.finish s.unit w = (.failed e, unit, w') →
          (({ s with unit } : Worker υ π α).record action e).state.isFailed = false →
            Move now s ((({ s with unit } : Worker υ π α).record action e).advance since rest now w')
  | fail {since : Nat} {action : α} {rest : List α} {ending : Timer}
      {course : Course υ UnitError} {w w' : World} {unit : υ} {e : UnitError} :
      s.loop = .cycling since action rest ending course →
        course.finish s.unit w = (.failed e, unit, w') →
          (({ s with unit } : Worker υ π α).record action e).state.isFailed = true →
            Move now s { ({ s with unit } : Worker υ π α).record action e with loop := .ended }

def Moves [Timed υ] (now : Nat) : Worker υ π α → Worker υ π α → Prop :=
  Relation.ReflTransGen (Move now)

/-- What is needed of a worker, for a deed to be a chain of moves. -/
structure Orderly (s : Worker υ π α) : Prop where
  running : s.isAlive = true → s.state = .running
  /-- Nobody else has the unit during a cycle. -/
  holding : s.isCycling = true → s.hasUnit = true
  built : ∀ c ∈ s.claims, c.IsBuilt
  begun : ∀ since action rest ending course,
    s.loop = .cycling since action rest ending course →
      ∃ unit instant w, course = (Craft.perform unit action instant w).1

theorem Made.orderly [BEq α] {actions : List α} {param : π} {s : Worker υ π α} {now : Nat}
    (h : Made actions param s now) : s.Orderly := by
  obtain ⟨_, hloop, _, hclaims, _⟩ := h.spec
  refine ⟨?_, ?_, ?_, ?_⟩
  · simp [isAlive, hloop]
  · simp [isCycling, hloop]
  · simp [hclaims]
  · simp [hloop]

theorem Orderly.isRunning_eq {s : Worker υ π α} (h : s.Orderly) : s.isRunning = s.isAlive := by
  cases halive : s.isAlive with
  | false => rw [isRunning, halive, Bool.false_and]
  | true => rw [isRunning, halive, h.running halive]; rfl

/-! ## Putting a unit in place -/

section

omit [Craft υ π α]

theorem isCycling_start {s : Worker υ π α} (h : s.isCycling = false) (now : Nat) :
    (s.start now).isCycling = false := by
  unfold start
  split
  · exact h
  · rfl

theorem isCycling_replace {s : Worker υ π α} (h : s.isCycling = false) (fresh : υ) (param : π)
    (starts : Bool) (now : Nat) : (s.replace fresh param starts now).isCycling = false := by
  unfold replace
  dsimp only
  split
  · exact h
  · split
    · refine isCycling_start ?_ now
      exact h
    · exact h

theorem replace_starts (s : Worker υ π α) (fresh : υ) (param : π) (now : Nat) :
    s.replace fresh param true now = (s.replace fresh param false now).start now := by
  unfold replace
  dsimp only
  split
  case isTrue h => simp [start, h]
  case isFalse h => rfl

theorem replace_of_running {s : Worker υ π α} (h : s.isRunning = true) (fresh : υ) (param : π)
    (starts : Bool) (now : Nat) :
    s.replace fresh param starts now = { s with unit := fresh, param, faults := [] } :=
  if_pos h

theorem replace_of_not_running {s : Worker υ π α} (h : s.isRunning = false) (fresh : υ)
    (param : π) (starts : Bool) (now : Nat) :
    s.replace fresh param starts now =
      let s := { s with unit := fresh, param, faults := [], state := .constructed }
      if starts then s.start now else s :=
  if_neg (ne_true_of_eq_false h)

theorem serveSwaps_of_running (now : Nat) (cs : List (Claim υ π)) {s : Worker υ π α}
    (h : s.isRunning = true) :
    (serveSwaps now cs s).loop = s.loop ∧ (serveSwaps now cs s).actions = s.actions := by
  induction cs generalizing s with
  | nil => exact ⟨rfl, rfl⟩
  | cons c cs ih =>
      cases c with
      | swap fresh param starts =>
          rw [serveSwaps, replace_of_running h]
          exact ih (s := { s with unit := fresh, param, faults := [] }) h
      | cycle => exact ⟨rfl, rfl⟩
      | guest => exact ⟨rfl, rfl⟩

theorem serveSwaps_claims (now : Nat) (cs : List (Claim υ π)) (s : Worker υ π α) :
    (serveSwaps now cs s).claims <:+ cs := by
  induction cs generalizing s with
  | nil => exact List.suffix_refl _
  | cons c cs ih =>
      cases c with
      | swap fresh param starts => exact (ih _).trans (List.suffix_cons ..)
      | cycle => exact List.suffix_refl _
      | guest => exact List.suffix_refl _

theorem isCycling_sleep (s : Worker υ π α) (span now : Nat) (w : World) :
    (s.sleep span now w).isCycling = false := by
  unfold sleep
  dsimp only
  split <;> rfl

theorem sleep_claims (s : Worker υ π α) (span now : Nat) (w : World) :
    (s.sleep span now w).claims = s.claims := by
  unfold sleep
  dsimp only
  split <;> rfl

end

theorem record_state {s : Worker υ π α} {action : α} {e : UnitError}
    (h : (s.record action e).state.isFailed = false) : (s.record action e).state = s.state := by
  unfold record at h ⊢
  dsimp only at h ⊢
  split at h
  case isTrue => cases h
  case isFalse hbudget => rw [if_neg hbudget]

theorem Orderly.sleep {s : Worker υ π α} (hstate : s.state = .running)
    (hbuilt : ∀ c ∈ s.claims, c.IsBuilt) (span now : Nat) (w : World) :
    (s.sleep span now w).Orderly := by
  unfold Worker.sleep
  dsimp only
  split
  · exact ⟨nofun, nofun, hbuilt, nofun⟩
  · exact ⟨fun _ => hstate, nofun, hbuilt, nofun⟩

theorem Orderly.advance {s : Worker υ π α} (hstate : s.state = .running)
    (hunit : s.hasUnit = true) (hbuilt : ∀ c ∈ s.claims, c.IsBuilt) (since : Nat) (rest : List α)
    (now : Nat) (w : World) : (s.advance since rest now w).Orderly := by
  cases rest with
  | nil => exact .sleep hstate hbuilt ..
  | cons action rest =>
      refine ⟨fun _ => hstate, fun _ => hunit, hbuilt, fun _ _ _ _ _ hloop => ?_⟩
      cases hloop
      exact ⟨s.unit, now, w, rfl⟩

theorem Orderly.start {s : Worker υ π α} (h : s.Orderly) (now : Nat) : (s.start now).Orderly := by
  unfold Worker.start
  split
  · exact h
  · exact ⟨fun _ => rfl, nofun, h.built, nofun⟩

theorem Orderly.replace {s : Worker υ π α} (h : s.Orderly) (fresh : υ) (param : π) (now : Nat) :
    (s.replace fresh param false now).Orderly := by
  have hrunning := h.isRunning_eq
  unfold Worker.replace
  dsimp only
  split
  case isTrue => exact ⟨h.running, h.holding, h.built, h.begun⟩
  case isFalse hstands =>
      have hdead : s.isAlive = false := by
        rw [← hrunning]
        exact eq_false_of_ne_true hstands
      exact ⟨fun halive => (nomatch hdead.symm.trans halive), h.holding, h.built, h.begun⟩

variable [Timed υ]

theorem serveSwaps_moves {s : Worker υ π α} (now : Nat) {cs : List (Claim υ π)}
    (hcycling : s.isCycling = false) (hbuilt : ∀ c ∈ cs, c.IsBuilt) :
    Moves now s (serveSwaps now cs s) := by
  induction cs generalizing s with
  | nil => exact .single (.pass [] hcycling hbuilt)
  | cons c cs ih =>
      obtain ⟨hc, hcs⟩ := List.forall_mem_cons.mp hbuilt
      cases c with
      | swap fresh param starts =>
          have hrenew : Move now s (s.replace fresh param false now) :=
            .renew fresh param starts hcycling hc
          have hplaced : Moves now s (s.replace fresh param starts now) := by
            cases starts with
            | false => exact .single hrenew
            | true =>
                rw [replace_starts]
                exact .tail (.single hrenew) .start
          exact hplaced.trans (ih (isCycling_replace hcycling fresh param starts now) hcs)
      | cycle => exact .single (.pass _ hcycling hbuilt)
      | guest => exact .single (.pass _ hcycling hbuilt)

theorem release_moves {s : Worker υ π α} (now : Nat) (hcycling : s.isCycling = false)
    (hbuilt : ∀ c ∈ s.claims, c.IsBuilt) : Moves now s (s.release now) :=
  serveSwaps_moves now hcycling fun c hc => hbuilt c (List.mem_of_mem_drop hc)

theorem Orderly.claim_moves {s : Worker υ π α} (h : s.Orderly) (now : Nat) {c : Claim υ π}
    (hc : c.IsBuilt) : Moves now s (s.claim c now) := by
  cases hcycling : s.isCycling with
  | false =>
      refine serveSwaps_moves now hcycling fun d hd => ?_
      rcases List.mem_append.mp hd with hd | hd
      · exact h.built d hd
      · exact List.mem_singleton.mp hd ▸ hc
  | true =>
      -- The loop has the unit, so that nobody gets it now.
      have hwaits : s.claim c now = { s with claims := s.claims ++ [c] } := by
        have hfirst := h.holding hcycling
        unfold hasUnit at hfirst
        unfold claim
        split at hfirst
        case h_1 rest hclaims => rw [hclaims]; rfl
        case h_2 => cases hfirst
      rw [hwaits]
      exact .single (.ask c hc)

/-! ## The turns of the loop -/

theorem goOn_moves {s t : Worker υ π α} {since now : Nat} {rest : List α} {w : World}
    (hbuilt : ∀ c ∈ t.claims, c.IsBuilt) (h : Move now s (t.advance since rest now w)) :
    Moves now s (t.goOn since rest now w).1 := by
  cases rest with
  | nil =>
      refine .head h (release_moves now (isCycling_sleep ..) ?_)
      rw [advance, sleep_claims]
      exact hbuilt
  | cons action rest => exact .single h

theorem Orderly.finish_moves {s : Worker υ π α} (h : s.Orderly) {since : Nat} {action : α}
    {rest : List α} {ending : Timer} {course : Course υ UnitError}
    (hloop : s.loop = .cycling since action rest ending course) (now : Nat) (w : World)
    (hcrash : s.crashes w = false) :
    Moves now s (s.finish since action rest course now w).1 := by
  unfold finish
  rcases hfinish : course.finish s.unit w with ⟨outcome, unit, w'⟩
  cases outcome with
  | done => exact goOn_moves h.built (.done hloop hfinish)
  | crashed => simp [crashes, hloop, hfinish] at hcrash
  | failed e =>
      dsimp only
      split
      case isTrue hfailed =>
          exact .head (.fail hloop hfinish hfailed) (release_moves now rfl h.built)
      case isFalse hfailed =>
          exact goOn_moves h.built (.endure hloop hfinish (eq_false_of_ne_true hfailed))

theorem Orderly.loopTurn_moves {s : Worker υ π α} (h : s.Orderly) (now : Nat) (w : World)
    (hcrash : s.crashes w = false) : Moves now s (s.loopTurn now w).1 := by
  unfold loopTurn
  split
  next instant hloop => exact .single (.wake instant w hloop)
  next timer hloop =>
      split
      case isTrue hstopping => exact .single (.leave timer hloop hstopping)
      case isFalse hstopping =>
          -- The loop gets in line, those before it are served, and then it may begin.
          let t : Worker υ π α := { s with loop := .claiming now }
          have hreach : Move now s t := .reach timer hloop
          have hstate : t.state = .running := h.running (by simp [isAlive, hloop])
          have ht : t.Orderly := ⟨fun _ => hstate, nofun, h.built, nofun⟩
          have hclaim : Moves now t (t.claim .cycle now) := ht.claim_moves now trivial
          have hrunning : t.isRunning = true := ht.isRunning_eq
          have hclaiming : (t.claim .cycle now).loop = .claiming now :=
            (serveSwaps_of_running now _ hrunning).1
          have hbuilt : ∀ c ∈ (t.claim .cycle now).claims, c.IsBuilt := fun c hc => by
            have hmem := (serveSwaps_claims now _ t).subset hc
            rcases List.mem_append.mp hmem with hmem | hmem
            · exact h.built c hmem
            · rw [List.mem_singleton.mp hmem]
              trivial
          refine (Relation.ReflTransGen.single hreach).trans (hclaim.trans ?_)
          dsimp only
          split
          case isTrue hunit => exact goOn_moves hbuilt (.begin now w hclaiming hunit)
          case isFalse hunit => exact .refl
  next since hloop =>
      split
      case isTrue hunit => exact goOn_moves h.built (.begin since w hloop hunit)
      case isFalse hunit => exact .refl
  next since action rest ending course hloop =>
      exact h.finish_moves hloop now w hcrash
  all_goals exact .refl

/-! ## Deeds -/

/-- What can be done to a worker; the last one is what it does by itself. -/
inductive Deed (π : Type) where
  | start
  | stop
  | confirmEnd
  | setPeriod (period : Nat)
  | reset (param : Option π) (starts : Bool)
  | borrow
  | giveBack
  | turn

def act (s : Worker υ π α) (now : Nat) (w : World) : Deed π → Worker υ π α × World
  | .start => (s.start now, w)
  | .stop => (s.stop, w)
  | .confirmEnd => (s.confirmEnd.2, w)
  | .setPeriod period => (s.setPeriod period, w)
  | .reset param starts =>
    match s.reset param starts now w with
    | (.error _, w) => (s, w)
    | (.ok s, w) => (s, w)
  | .borrow => (s.borrow now, w)
  | .giveBack => (s.giveBack now, w)
  | .turn => s.turn now w

/-- No action crashes in the turn of the loop. -/
def Admits (s : Worker υ π α) (now : Nat) (w : World) : Deed π → Prop
  | .turn => Timer.isFirst (s.loopDue now) (Timed.due s.unit now) = true → s.crashes w = false
  | _ => True

theorem Orderly.act_moves {s : Worker υ π α} (h : s.Orderly) (now : Nat) (w : World) (d : Deed π)
    (hadmits : s.Admits now w d) : Moves now s (s.act now w d).1 := by
  cases d with
  | start => exact .single .start
  | stop => exact .single .stop
  | confirmEnd => exact .single .confirmEnd
  | setPeriod period => exact .single (.setPeriod period)
  | reset param starts =>
      simp only [act, reset]
      rcases hbuild : Craft.build (υ := υ) (param.getD s.param) now w with ⟨fresh | fresh, w'⟩
      · exact .refl
      · exact h.claim_moves now ⟨now, w, w', hbuild⟩
  | borrow => exact h.claim_moves now trivial
  | giveBack =>
      simp only [act, giveBack]
      split
      case isTrue hlent =>
          -- A guest has the unit, so that no cycle goes on.
          refine release_moves now ?_ h.built
          cases hcycling : s.isCycling with
          | false => rfl
          | true =>
              have hfirst := h.holding hcycling
              simp only [isLent, hasUnit] at hlent hfirst
              split at hfirst <;> simp_all
      case isFalse hlent => exact .refl
  | turn =>
      simp only [act, turn]
      split
      case isTrue hfirst => exact h.loopTurn_moves now w (hadmits hfirst)
      case isFalse hfirst => exact .single (.live w)

/-! ## What moves keep -/

theorem Move.orderly {s t : Worker υ π α} {now : Nat} (hmove : Move now s t) (h : s.Orderly) :
    t.Orderly := by
  cases hmove with
  | start => exact h.start now
  | stop => exact ⟨h.running, h.holding, h.built, h.begun⟩
  | confirmEnd =>
      unfold Worker.confirmEnd
      split
      · exact h
      · exact ⟨nofun, nofun, h.built, nofun⟩
  | setPeriod period => exact ⟨h.running, h.holding, h.built, h.begun⟩
  | ask c hc =>
      refine ⟨h.running, fun hcycling => ?_, ?_, h.begun⟩
      · -- Who comes last does not take the place of the first.
        have hfirst := h.holding hcycling
        unfold hasUnit at hfirst ⊢
        split at hfirst
        · simp_all
        · cases hfirst
      · intro d hd
        rcases List.mem_append.mp hd with hd | hd
        · exact h.built d hd
        · exact List.mem_singleton.mp hd ▸ hc
  | pass claims hcycling hbuilt =>
      exact ⟨h.running, fun h => (nomatch hcycling.symm.trans h), hbuilt, h.begun⟩
  | renew fresh param starts hcycling hbuilt => exact h.replace fresh param now
  | live w => exact ⟨h.running, h.holding, h.built, h.begun⟩
  | wake instant w hloop =>
      have hstate := h.running (by simp [isAlive, hloop])
      unfold Worker.wake
      split
      · exact ⟨nofun, nofun, h.built, nofun⟩
      · exact .sleep hstate h.built ..
  | leave timer hloop hstopping => exact ⟨nofun, nofun, h.built, nofun⟩
  | reach timer hloop =>
      have hstate := h.running (by simp [isAlive, hloop])
      exact ⟨fun _ => hstate, nofun, h.built, nofun⟩
  | begin since w hloop hunit =>
      exact .advance (h.running (by simp [isAlive, hloop])) hunit h.built ..
  | done hloop hfinish =>
      refine .advance ?_ ?_ ?_ ..
      · exact h.running (by simp [isAlive, hloop])
      · exact h.holding (by simp [isCycling, hloop])
      · exact h.built
  | endure hloop hfinish hendured =>
      have hstate := h.running (by simp [isAlive, hloop])
      have hunit := h.holding (by simp [isCycling, hloop])
      exact .advance ((record_state hendured).trans hstate) hunit h.built ..
  | fail hloop hfinish hfailed => exact ⟨nofun, nofun, h.built, nofun⟩

/-! ## Runs -/

/-- What a worker becomes by deeds, one after the other. -/
inductive Leads (s : Worker υ π α) (now : Nat) : List (Deed π) → Worker υ π α → Nat → Prop
  | refl : Leads s now [] s now
  | later {ds : List (Deed π)} {t : Worker υ π α} {reached later : Nat} :
      Leads s now ds t reached → reached ≤ later → Leads s now ds t later
  | act {ds : List (Deed π)} {t : Worker υ π α} {reached : Nat} (d : Deed π) (w : World) :
      Leads s now ds t reached → t.Admits reached w d →
        Leads s now (ds ++ [d]) (t.act reached w d).1 reached

theorem Moves.orderly {s t : Worker υ π α} {now : Nat} (hmoves : Moves now s t) (h : s.Orderly) :
    t.Orderly := by
  induction hmoves with
  | refl => exact h
  | tail _ hmove ih => exact hmove.orderly ih

/-- What each of some deeds keeps is kept by every run of them. -/
theorem Leads.deeds {P : Worker υ π α → Prop} {Q : Deed π → Prop}
    (hact : ∀ {s} now w d, s.Orderly → P s → Q d → P (s.act now w d).1)
    {s t : Worker υ π α} {now reached : Nat} {ds : List (Deed π)} (h : Leads s now ds t reached)
    (hds : ∀ d ∈ ds, Q d) (horderly : s.Orderly) (hP : P s) : t.Orderly ∧ P t := by
  induction h with
  | refl => exact ⟨horderly, hP⟩
  | later _ _ ih => exact ih hds
  | @act ds t reached d w _ hadmits ih =>
      obtain ⟨ht, hPt⟩ := ih fun e he => hds e (List.mem_append_left _ he)
      have hd : Q d := hds d (List.mem_append_right _ (List.mem_singleton_self d))
      exact ⟨(ht.act_moves reached w d hadmits).orderly ht, hact reached w d ht hPt hd⟩

theorem Leads.invariant {P : Nat → Worker υ π α → Prop}
    (hmove : ∀ {now s t}, s.Orderly → P now s → Move now s t → P now t)
    (hlater : ∀ {now later s}, P now s → now ≤ later → P later s)
    {s t : Worker υ π α} {now reached : Nat} {ds : List (Deed π)} (h : Leads s now ds t reached)
    (horderly : s.Orderly) (hP : P now s) : t.Orderly ∧ P reached t := by
  induction h with
  | refl => exact ⟨horderly, hP⟩
  | later _ hle ih => exact ⟨ih.1, hlater ih.2 hle⟩
  | @act ds t reached d w _ hadmits ih =>
      have hmoves := ih.1.act_moves reached w d hadmits
      -- All moves of a deed are made at one instant.
      generalize (t.act reached w d).1 = u at hmoves
      induction hmoves with
      | refl => exact ih
      | tail _ hstep ih => exact ⟨hstep.orderly ih.1, hmove ih.1 ih.2 hstep⟩

/-- The workers in use. -/
def Reachable [BEq α] (actions : List α) (param : π) (s : Worker υ π α) (now : Nat) : Prop :=
  ∃ first made ds, Made actions param first made ∧ Leads first made ds s now

theorem Reachable.later [BEq α] {actions : List α} {param : π} {s : Worker υ π α}
    {now later : Nat} (h : Reachable actions param s now) (hle : now ≤ later) :
    Reachable actions param s later := by
  obtain ⟨first, made, ds, hfirst, hleads⟩ := h
  exact ⟨first, made, ds, hfirst, hleads.later hle⟩

theorem Reachable.act [BEq α] {actions : List α} {param : π} {s : Worker υ π α} {now : Nat}
    (h : Reachable actions param s now) (d : Deed π) (w : World) (hadmits : s.Admits now w d) :
    Reachable actions param (s.act now w d).1 now := by
  obtain ⟨first, made, ds, hfirst, hleads⟩ := h
  exact ⟨first, made, ds ++ [d], hfirst, hleads.act d w hadmits⟩

theorem Reachable.invariant [BEq α] {actions : List α} {param : π} {P : Nat → Worker υ π α → Prop}
    (hmade : ∀ {s now}, Made actions param s now → P now s)
    (hmove : ∀ {now s t}, s.Orderly → P now s → Move now s t → P now t)
    (hlater : ∀ {now later s}, P now s → now ≤ later → P later s)
    {s : Worker υ π α} {now : Nat} (h : Reachable actions param s now) : s.Orderly ∧ P now s := by
  obtain ⟨first, made, ds, hfirst, hleads⟩ := h
  exact hleads.invariant hmove hlater hfirst.orderly (hmade hfirst)

theorem Reachable.orderly [BEq α] {actions : List α} {param : π} {s : Worker υ π α} {now : Nat}
    (h : Reachable actions param s now) : s.Orderly :=
  (h.invariant (P := fun _ _ => True) (fun _ => trivial) (fun _ _ _ => trivial)
    (fun _ _ => trivial)).1

end EdgeAgent.Worker
