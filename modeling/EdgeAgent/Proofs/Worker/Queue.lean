import EdgeAgent.Proofs.Worker.Idle

/-! # Who waits for the unit

As long as nobody brings a fresh unit, only guests and the loop wait for the one that
is there, the loop once, while it wants a cycle. Then a worker keeps its parameters, and
follows its period with a unit that does so, too.
-/

namespace EdgeAgent.Worker

variable {υ π α : Type}

def Claim.isGuest : Claim υ π → Bool
  | .guest => true
  | .cycle | .swap .. => false

/-- The loop waits for the unit or has it. -/
def wantsUnit (s : Worker υ π α) : Bool :=
  match s.loop with
  | .claiming _ | .cycling .. => true
  | _ => false

/-- Apart from guests, the loop waits for the unit if it wants it, and nobody else;
and no loop is left to a worker that has failed. -/
structure Queued (s : Worker υ π α) : Prop where
  cycles : s.claims.filter (!·.isGuest) = if s.wantsUnit then [.cycle] else []
  holding : s.isCycling = true → s.hasUnit = true
  enduring : s.isAlive = true → s.state.isFailed = false

/-- A worker of some parameters follows a period, and so does its unit, after the
course that it is in as well: `F` tells which units follow which period. -/
structure Serves (F : Nat → υ → Prop) (param : π) (period : Nat) (s : Worker υ π α) : Prop where
  queued : s.Queued
  unit : F period s.unit
  param : s.param = param
  period : s.period = Duration.wholeMillis period
  course : ∀ since action rest ending course, s.loop = .cycling since action rest ending course →
    ∀ p u w, F p u → F p (course.finish u w).2.1

/-! ## The queue -/

theorem Queued.no_swap {s : Worker υ π α} (h : s.Queued) : ∀ c ∈ s.claims, c.isSwap = false := by
  intro c hc
  cases c with
  | cycle | guest => rfl
  | swap fresh param starts =>
      have hmem : Claim.swap fresh param starts ∈ s.claims.filter (!·.isGuest) :=
        List.mem_filter.mpr ⟨hc, rfl⟩
      rw [h.cycles] at hmem
      split at hmem <;> simp at hmem

theorem Queued.no_claims {s : Worker υ π α} (h : s.Queued) (hwants : s.wantsUnit = false)
    (hguests : ∀ c ∈ s.claims, c.isGuest = false) : s.claims = [] := by
  have hall : s.claims.filter (!·.isGuest) = s.claims :=
    List.filter_eq_self.mpr fun c hc => by simp [hguests c hc]
  rw [← hall, h.cycles, hwants]
  rfl

theorem claim_of_no_swap {s : Worker υ π α} (h : ∀ c ∈ s.claims, c.isSwap = false)
    {c : Claim υ π} (hc : c.isSwap = false) (now : Nat) :
    s.claim c now = { s with claims := s.claims ++ [c] } := by
  refine serveSwaps_of_no_swap ?_ now s
  intro d hd
  rcases List.mem_append.mp hd with hd | hd
  · exact h d hd
  · exact List.mem_singleton.mp hd ▸ hc

theorem Queued.no_swap_behind {s : Worker υ π α} (h : s.Queued) :
    ∀ c ∈ s.claims.drop 1, c.isSwap = false := fun c hc => h.no_swap c (List.mem_of_mem_drop hc)

theorem release_of_no_swap {s : Worker υ π α} (h : ∀ c ∈ s.claims.drop 1, c.isSwap = false)
    (now : Nat) : s.release now = { s with claims := s.claims.drop 1 } :=
  serveSwaps_of_no_swap h now s

theorem die_of_no_swap {s : Worker υ π α} (h : ∀ c ∈ s.claims.drop 1, c.isSwap = false)
    (now : Nat) : s.die now = { s with loop := .ended, claims := s.claims.drop 1 } :=
  serveSwaps_of_no_swap h now _

theorem claims_of_hasUnit {s : Worker υ π α} (h : s.hasUnit = true) :
    ∃ rest, s.claims = .cycle :: rest := by
  unfold hasUnit at h
  split at h
  · exact ⟨_, ‹_›⟩
  · cases h

theorem Queued.cycles_of_hasUnit {s : Worker υ π α} (h : s.Queued) (hunit : s.hasUnit = true) :
    s.claims.filter (!·.isGuest) = [.cycle] ∧ (s.claims.drop 1).filter (!·.isGuest) = [] := by
  obtain ⟨rest, hrest⟩ := claims_of_hasUnit hunit
  have hcycles := h.cycles
  rw [hrest] at hcycles ⊢
  cases hwants : s.wantsUnit with
  | true =>
      rw [hwants] at hcycles
      exact ⟨hcycles, by simpa [Claim.isGuest] using hcycles⟩
  | false => simp [Claim.isGuest, hwants] at hcycles

/-! ## What is done from outside -/

section

variable {F : Nat → υ → Prop} {param : π} {period : Nat} {s : Worker υ π α}

theorem course_of_not_wants {s : Worker υ π α} (h : s.wantsUnit = false) :
    ∀ since action rest ending course, s.loop = .cycling since action rest ending course →
      ∀ p u w, F p u → F p (course.finish u w).2.1 := by
  intro since action rest ending course hloop
  simp [wantsUnit, hloop] at h

theorem isCycling_of_not_wants {s : Worker υ π α} (h : s.wantsUnit = false) :
    s.isCycling = false := by
  cases hloop : s.loop <;> simp_all [wantsUnit, isCycling]

theorem Serves.of_not_wants (hunit : F period s.unit) (hparam : s.param = param)
    (hperiod : s.period = Duration.wholeMillis period) (hwants : s.wantsUnit = false)
    (hclaims : s.claims.filter (!·.isGuest) = [])
    (hstate : s.isAlive = true → s.state.isFailed = false) : s.Serves F param period where
  queued := ⟨by rw [hclaims, hwants]; rfl,
    fun h => (nomatch (isCycling_of_not_wants hwants).symm.trans h), hstate⟩
  unit := hunit
  param := hparam
  period := hperiod
  course := course_of_not_wants hwants

theorem Serves.of_gone (hunit : F period s.unit) (hparam : s.param = param)
    (hperiod : s.period = Duration.wholeMillis period) (hwants : s.wantsUnit = false)
    (hclaims : s.claims.filter (!·.isGuest) = []) (hgone : s.isAlive = false) :
    s.Serves F param period := by
  refine .of_not_wants hunit hparam hperiod hwants hclaims fun halive => ?_
  rw [hgone] at halive
  cases halive

theorem Serves.claims_of_not_wants (h : s.Serves F param period) (hwants : s.wantsUnit = false) :
    s.claims.filter (!·.isGuest) = [] := by
  rw [h.queued.cycles, hwants]
  rfl

theorem wantsUnit_of_not_isAlive (h : s.isAlive = false) : s.wantsUnit = false := by
  cases hloop : s.loop <;> simp_all [isAlive, wantsUnit]

theorem Serves.start (h : s.Serves F param period) (now : Nat) :
    (s.start now).Serves F param period := by
  unfold Worker.start
  split
  case isTrue => exact h
  case isFalse hstands =>
      have hwants : s.wantsUnit = false := by
        refine wantsUnit_of_not_isAlive ?_
        cases halive : s.isAlive <;> simp_all [isRunning]
      exact .of_not_wants h.unit h.param h.period rfl (h.claims_of_not_wants hwants) fun _ => rfl

theorem Serves.stop (h : s.Serves F param period) : s.stop.Serves F param period :=
  ⟨⟨h.queued.cycles, h.queued.holding, h.queued.enduring⟩, h.unit, h.param, h.period, h.course⟩

theorem Serves.confirmEnd (h : s.Serves F param period) :
    s.confirmEnd.2.Serves F param period := by
  unfold Worker.confirmEnd
  split
  case isTrue => exact h
  case isFalse hended =>
      have hwants := wantsUnit_of_not_isAlive (eq_false_of_ne_true hended)
      exact .of_gone h.unit h.param h.period rfl (h.claims_of_not_wants hwants) rfl

theorem Serves.withUnit (h : s.Serves F param period) {u : υ} (hu : F period u) :
    ({ s with unit := u } : Worker υ π α).Serves F param period :=
  ⟨⟨h.queued.cycles, h.queued.holding, h.queued.enduring⟩, hu, h.param, h.period, h.course⟩

theorem Serves.adopt (h : s.Serves F param period) {other : Nat} {u : υ} (hu : F other u) :
    ({ s.setPeriod other with unit := u } : Worker υ π α).Serves F param other :=
  ⟨⟨h.queued.cycles, h.queued.holding, h.queued.enduring⟩, hu, h.param, rfl, h.course⟩

theorem Serves.borrow (h : s.Serves F param period) (now : Nat) :
    (s.borrow now).Serves F param period := by
  rw [Worker.borrow, claim_of_no_swap h.queued.no_swap rfl now]
  refine ⟨⟨?_, ?_, h.queued.enduring⟩, h.unit, h.param, h.period, h.course⟩
  · rw [List.filter_append, h.queued.cycles]
    exact List.append_nil _
  · intro hcycling
    obtain ⟨rest, hrest⟩ := claims_of_hasUnit (h.queued.holding hcycling)
    simp [hasUnit, hrest]

theorem Serves.giveBack (h : s.Serves F param period) (now : Nat) :
    (s.giveBack now).Serves F param period := by
  unfold Worker.giveBack
  split
  case isFalse => exact h
  case isTrue hlent =>
      rw [release_of_no_swap h.queued.no_swap_behind now]
      obtain ⟨rest, hrest⟩ : ∃ rest, s.claims = .guest :: rest := by
        unfold isLent at hlent
        split at hlent
        · exact ⟨_, ‹_›⟩
        · cases hlent
      have hcycles := h.queued.cycles
      rw [hrest] at hcycles
      refine ⟨⟨?_, ?_, h.queued.enduring⟩, h.unit, h.param, h.period, h.course⟩
      · rw [hrest]
        exact hcycles
      · intro hcycling
        have hunit := h.queued.holding hcycling
        simp [hasUnit, hrest] at hunit

theorem Serves.die (h : s.Serves F param period) (hunit : s.hasUnit = true) (now : Nat) :
    (s.die now).Serves F param period := by
  have hdrop := (h.queued.cycles_of_hasUnit hunit).2
  rw [die_of_no_swap h.queued.no_swap_behind now]
  exact .of_gone h.unit h.param h.period rfl hdrop rfl

end

/-! ## Turns -/

variable [Craft υ π α] {F : Nat → υ → Prop} {param : π} {period : Nat} {s : Worker υ π α}

/-- No action changes the period that a unit follows. -/
def Preserves (F : Nat → υ → Prop) : Prop :=
  ∀ period u a now w, F period u →
    ∀ p u' w', F p u' → F p ((Craft.perform u a now w).1.finish u' w').2.1

theorem Serves.goOn (h : s.Serves F param period) (hF : Preserves F) (hunit : s.hasUnit = true)
    (hstate : s.state.isFailed = false) (since : Nat) (rest : List α) (now : Nat) (w : World) :
    (s.goOn since rest now w).1.Serves F param period := by
  obtain ⟨hcycle, hdrop⟩ := h.queued.cycles_of_hasUnit hunit
  cases rest with
  | nil =>
      unfold Worker.goOn
      dsimp only
      rw [release_of_no_swap (by rw [sleep_claims]; exact h.queued.no_swap_behind) now,
        sleep_claims]
      unfold Worker.sleep
      dsimp only
      split
      · exact .of_gone h.unit h.param h.period rfl hdrop rfl
      · exact .of_not_wants h.unit h.param h.period rfl hdrop fun _ => hstate
  | cons action rest =>
      refine ⟨⟨hcycle, fun _ => hunit, fun _ => hstate⟩, h.unit, h.param, h.period, ?_⟩
      intro _ _ _ _ _ hloop
      cases hloop
      exact hF period s.unit action now w h.unit

theorem Serves.finish (h : s.Serves F param period) (hF : Preserves F) {since : Nat} {action : α}
    {rest : List α} {ending : Timer} {course : Course υ UnitError}
    (hloop : s.loop = .cycling since action rest ending course) (now : Nat) (w : World) :
    (s.finish since action rest course now w).1.Serves F param period := by
  have hunit : s.hasUnit = true := h.queued.holding (by simp [isCycling, hloop])
  have hstate : s.state.isFailed = false := h.queued.enduring (by simp [isAlive, hloop])
  have hkept := h.course since action rest ending course hloop period s.unit w h.unit
  unfold Worker.finish
  rcases hfinish : course.finish s.unit w with ⟨outcome, unit, w'⟩
  rw [hfinish] at hkept
  have hs := h.withUnit hkept
  cases outcome with
  | done => exact hs.goOn hF hunit hstate since rest now w'
  | crashed => exact hs.die hunit now
  | failed e =>
      dsimp only
      split
      case isTrue hfailed =>
          -- The worker that failed has not left its loop yet, and so it is not in order.
          have hbehind : ∀ c ∈ (({ s with unit } : Worker υ π α).record action e).claims.drop 1,
              c.isSwap = false := h.queued.no_swap_behind
          have hdrop := (h.queued.cycles_of_hasUnit hunit).2
          rw [die_of_no_swap hbehind now]
          exact .of_gone hkept h.param h.period rfl hdrop rfl
      case isFalse hendured =>
          have hfailed := eq_false_of_ne_true hendured
          have hrecord : (({ s with unit } : Worker υ π α).record action e).Serves F param period :=
            ⟨⟨h.queued.cycles, h.queued.holding, fun _ => hfailed⟩, hkept, h.param, h.period,
              h.course⟩
          exact hrecord.goOn hF hunit hfailed since rest now w'

theorem Serves.loopTurn (h : s.Serves F param period) (hF : Preserves F) (now : Nat) (w : World) :
    (s.loopTurn now w).1.Serves F param period := by
  unfold Worker.loopTurn
  split
  next instant hloop =>
      have hstate := h.queued.enduring (by simp [isAlive, hloop])
      have hguests := h.claims_of_not_wants (by simp [wantsUnit, hloop])
      unfold Worker.wake Worker.sleep
      dsimp only
      split
      · exact .of_gone h.unit h.param h.period rfl hguests rfl
      · split
        · exact .of_gone h.unit h.param h.period rfl hguests rfl
        · exact .of_not_wants h.unit h.param h.period rfl hguests fun _ => hstate
  next timer hloop =>
      have hstate := h.queued.enduring (by simp [isAlive, hloop])
      have hguests := h.claims_of_not_wants (by simp [wantsUnit, hloop])
      split
      case isTrue hstopping => exact .of_gone h.unit h.param h.period rfl hguests rfl
      case isFalse hstopping =>
          -- The loop joins the queue at its end, and goes on at once where nobody is before it.
          have hqueue : ∀ c ∈ ({ s with loop := .claiming now } : Worker υ π α).claims,
              c.isSwap = false := h.queued.no_swap
          have hclaim := claim_of_no_swap hqueue (c := .cycle) rfl now
          have hclaiming : ({ s with
              loop := .claiming now, claims := s.claims ++ [.cycle] } : Worker υ π α).Serves
                F param period := by
            have hcycling : ({ s with
                loop := .claiming now, claims := s.claims ++ [.cycle] } : Worker υ π α).isCycling =
                  false := rfl
            refine ⟨⟨?_, fun h => ?_, fun _ => hstate⟩, h.unit, h.param, h.period, ?_⟩
            · rw [List.filter_append, hguests]
              rfl
            · rw [hcycling] at h
              cases h
            · intro since action rest ending course hloop
              cases hloop
          dsimp only
          rw [hclaim]
          split
          case isTrue hunit => exact hclaiming.goOn hF hunit hstate now s.actions now w
          case isFalse hunit => exact hclaiming
  next since hloop =>
      have hstate := h.queued.enduring (by simp [isAlive, hloop])
      split
      case isTrue hunit => exact h.goOn hF hunit hstate since s.actions now w
      case isFalse hunit => exact h
  next since action rest ending course hloop => exact h.finish hF hloop now w
  all_goals exact h

theorem Serves.turn [Timed υ] (h : s.Serves F param period) (hF : Preserves F)
    (hturn : ∀ p u now w, F p u → F p (Timed.turn u now w).1) (now : Nat) (w : World) :
    (s.turn now w).1.Serves F param period := by
  unfold Worker.turn
  split
  · exact h.loopTurn hF now w
  · exact h.withUnit (hturn period s.unit now w h.unit)

/-! ## A fresh unit -/

def revive (s : Worker υ π α) (fresh : υ) (now : Nat) : Worker υ π α :=
  { s with
    unit := fresh, faults := [], state := .running, loop := .spawned now, stopping := false }

omit [Craft υ π α] in
theorem Queued.isAlive_of_not_isRunning {s : Worker υ π α} (h : s.Queued)
    (hstands : s.isRunning = false) : s.isAlive = false := by
  cases halive : s.isAlive with
  | false => rfl
  | true => simp [isRunning, halive, h.enduring halive] at hstands

omit [Craft υ π α] in
theorem Queued.claims_of_not_isRunning {s : Worker υ π α} (h : s.Queued)
    (hstands : s.isRunning = false) (hguests : ∀ c ∈ s.claims, c.isGuest = false) :
    s.claims = [] :=
  h.no_claims (wantsUnit_of_not_isAlive (h.isAlive_of_not_isRunning hstands)) hguests

omit [Craft υ π α] in
theorem replace_of_gone {s : Worker υ π α} (h : s.isAlive = false) (fresh : υ) (now : Nat) :
    s.replace fresh s.param true now = s.revive fresh now := by
  have hstands : s.isRunning = false := by rw [isRunning, h, Bool.false_and]
  let t : Worker υ π α := { s with unit := fresh, faults := [], state := .constructed }
  have ht : (t.isRunning || t.state.isFailed) = false := by
    have hgone : t.isAlive = false := h
    rw [isRunning, hgone]
    rfl
  calc s.replace fresh s.param true now = t.start now := by
        rw [replace_of_not_running hstands]
        rfl
    _ = s.revive fresh now := by
        rw [Worker.start, if_neg (ne_true_of_eq_false ht)]
        rfl

/-- Where nobody waits, a fresh unit is in place at once, and the loop is started. -/
theorem Queued.reset_eq {s : Worker υ π α} (h : s.Queued) (hstands : s.isRunning = false)
    (hguests : ∀ c ∈ s.claims, c.isGuest = false) (now : Nat) (w : World) :
    s.reset none true now w =
      match Craft.build s.param now w with
      | (.error e, w) => (.error (.build s.name e), w)
      | (.ok fresh, w) => (.ok (s.revive fresh now), w) := by
  have hclaims := h.claims_of_not_isRunning hstands hguests
  have hclaim (fresh : υ) : s.claim (.swap fresh s.param true) now = s.revive fresh now := by
    have hunclaimed : ({ s.revive fresh now with claims := [] } : Worker υ π α) =
        s.revive fresh now := by
      rw [← hclaims]
      rfl
    rw [Worker.claim, hclaims]
    simp only [List.nil_append, serveSwaps]
    rw [replace_of_gone (h.isAlive_of_not_isRunning hstands), hunclaimed]
  rcases hbuild : Craft.build (υ := υ) s.param now w with ⟨e | fresh, w'⟩
  · simp only [Worker.reset, Option.getD_none, hbuild]
  · simp only [Worker.reset, Option.getD_none, hbuild, hclaim]

theorem Serves.reset (h : s.Serves F param period) (hstands : s.isRunning = false)
    (hguests : ∀ c ∈ s.claims, c.isGuest = false) {now : Nat} {w w' : World} {s' : Worker υ π α}
    (hreset : s.reset none true now w = (.ok s', w')) :
    s'.claims = [] ∧ (∃ w', Craft.build param now w = (.ok s'.unit, w')) ∧
      ∀ u, F period u → ({ s' with unit := u } : Worker υ π α).Serves F param period := by
  have hclaims := h.queued.claims_of_not_isRunning hstands hguests
  rw [h.queued.reset_eq hstands hguests] at hreset
  rcases hfresh : Craft.build (υ := υ) s.param now w with ⟨e | fresh, w''⟩
  all_goals
    rw [hfresh] at hreset
    cases hreset
  rw [h.param] at hfresh
  refine ⟨hclaims, ⟨_, hfresh⟩, ?_⟩
  intro u hu
  refine .of_not_wants hu h.param h.period rfl ?_ fun _ => rfl
  exact congrArg (List.filter (!·.isGuest)) hclaims

theorem Serves.new [BEq α] {name : String} {actions : List α} {delay : Delay} {now : Nat}
    {w w' : World} (hnew : Worker.new name param actions period delay now w = (.ok s, w'))
    (hbuild : ∀ fresh w₁ w₂, Craft.build param now w₁ = (.ok fresh, w₂) → F period fresh)
    (stopTimeout : Nat) :
    ({ s with stopTimeout } : Worker υ π α).Serves F param period ∧ s.claims = [] := by
  unfold Worker.new at hnew
  split at hnew
  · cases hnew
  · rcases hfresh : Craft.build (υ := υ) param now w with ⟨e | fresh, w''⟩
    all_goals
      rw [hfresh] at hnew
      cases hnew
    exact ⟨.of_gone (hbuild fresh _ _ hfresh) rfl rfl rfl rfl rfl, rfl⟩

/-! ## Who comes to the unit -/

section

omit [Craft υ π α]

theorem start_claims (s : Worker υ π α) (now : Nat) : (s.start now).claims = s.claims := by
  unfold start
  split <;> rfl

theorem confirmEnd_claims (s : Worker υ π α) : s.confirmEnd.2.claims = s.claims := by
  unfold confirmEnd
  split <;> rfl

theorem giveBack_claims {s : Worker υ π α} (h : ∀ c ∈ s.claims.drop 1, c.isGuest = false)
    (now : Nat) : ∀ c ∈ (s.giveBack now).claims, c.isGuest = false := by
  unfold giveBack
  split
  case isTrue hlent => exact fun c hc => h c ((serveSwaps_claims now _ s).subset hc)
  case isFalse hlent =>
      intro c hc
      cases hclaims : s.claims with
      | nil => simp [hclaims] at hc
      | cons d ds =>
          rw [hclaims] at h hc
          rcases List.mem_cons.mp hc with rfl | hc
          · cases c <;> simp_all [isLent, Claim.isGuest]
          · exact h c hc

theorem release_claims (s : Worker υ π α) (now : Nat) :
    (s.release now).claims <:+ s.claims :=
  (serveSwaps_claims now _ s).trans (List.drop_suffix 1 _)

end

theorem goOn_claims (s : Worker υ π α) (since : Nat) (rest : List α) (now : Nat) (w : World) :
    (s.goOn since rest now w).1.claims <:+ s.claims := by
  cases rest with
  | nil =>
      have hreleased := release_claims (s.sleep (s.period - (now - since)) now w) now
      rwa [sleep_claims] at hreleased
  | cons action rest => exact List.suffix_refl _

theorem finish_claims (s : Worker υ π α) (since : Nat) (action : α) (rest : List α)
    (course : Course υ UnitError) (now : Nat) (w : World) :
    (s.finish since action rest course now w).1.claims <:+ s.claims := by
  unfold finish
  rcases course.finish s.unit w with ⟨outcome, unit, w'⟩
  cases outcome with
  | done => exact goOn_claims { s with unit } since rest now w'
  | crashed => exact release_claims { s with unit, loop := .ended } now
  | failed e =>
      dsimp only
      split
      · exact release_claims { ({ s with unit } : Worker υ π α).record action e with
          loop := .ended } now
      · exact goOn_claims (({ s with unit } : Worker υ π α).record action e) since rest now w'

theorem loopTurn_claims (s : Worker υ π α) (now : Nat) (w : World) :
    (s.loopTurn now w).1.claims <:+ s.claims ∨
      (s.loopTurn now w).1.claims <:+ s.claims ++ [.cycle] := by
  unfold loopTurn
  split
  next instant hloop =>
      unfold wake
      dsimp only
      split
      · exact .inl (List.suffix_refl _)
      · rw [sleep_claims]
        exact .inl (List.suffix_refl _)
  next timer hloop =>
      split
      · exact .inl (List.suffix_refl _)
      · have hclaim :
            (({ s with loop := .claiming now } : Worker υ π α).claim .cycle now).claims <:+
              s.claims ++ [.cycle] := serveSwaps_claims now _ _
        dsimp only
        split
        · exact .inr ((goOn_claims _ _ _ now w).trans hclaim)
        · exact .inr hclaim
  next since hloop =>
      split
      · exact .inl (goOn_claims s since s.actions now w)
      · exact .inl (List.suffix_refl _)
  next since action rest ending course hloop =>
      exact .inl (finish_claims s since action rest course now w)
  all_goals exact .inl (List.suffix_refl _)

/-- A turn brings nobody to the unit but the loop, and nobody comes before another one. -/
theorem turn_claims [Timed υ] (s : Worker υ π α) (now : Nat) (w : World) (n : Nat) :
    ∀ c ∈ (s.turn now w).1.claims.drop n, c ∈ s.claims.drop n ∨ c = .cycle := by
  have hsuffix : (s.turn now w).1.claims <:+ s.claims ∨
      (s.turn now w).1.claims <:+ s.claims ++ [.cycle] := by
    unfold turn
    split
    · exact loopTurn_claims s now w
    · exact .inl (List.suffix_refl _)
  have hdrop : ∀ {cs ds : List (Claim υ π)}, cs <:+ ds → ∀ c ∈ cs.drop n, c ∈ ds.drop n := by
    rintro cs _ ⟨before, rfl⟩ c hc
    rw [List.drop_append]
    exact List.mem_append_right _ ((List.drop_sublist_drop_left cs (Nat.sub_le ..)).subset hc)
  intro c hc
  rcases hsuffix with hleft | hjoined
  · exact .inl (hdrop hleft c hc)
  · have hmem := hdrop hjoined c hc
    rw [List.drop_append] at hmem
    rcases List.mem_append.mp hmem with hmem | hmem
    · exact .inl hmem
    · exact .inr (List.mem_singleton.mp (List.mem_of_mem_drop hmem))

end EdgeAgent.Worker
