import EdgeAgent.Proofs.Worker.Moves
import EdgeAgent.Worker.Simulated

/-! # The state of a worker and its errors

A worker runs when it is in the running state, its errors fit its state, and its
state changes as states may. The one exception is a loop whose first wait ends after
the last instant that can be told: it is gone, and the state is still the running one.
-/

namespace EdgeAgent.Worker

variable {υ π α : Type}

/-- Errors that a worker endures. -/
def Endured (faults : List Fault) : Prop :=
  faults.length ≤ maxFaults ∧ ∀ f ∈ faults, f.kind ≠ "ExitRequested"

/-- Errors that a worker endured until the last one came. -/
def Fatal (faults : List Fault) : Prop :=
  ∃ before last, faults = before ++ [last] ∧ Endured before ∧
    (last.kind = "ExitRequested" ∨ faults.length = maxFaults + 1)

/-- The errors fit the state. -/
structure Tally (s : Worker υ π α) : Prop where
  endured : s.state.isFailed = false → Endured s.faults
  fatal : ∀ causes, s.state = .failed causes → causes = s.faults.map (·.text) ∧ Fatal s.faults

/-- A loop that was started is there, unless its first wait was too long. -/
def Lives (now : Nat) (s : Worker υ π α) : Prop :=
  s.state = .running → s.isAlive = true ∨ endOfTime ≤ now + s.initialDelay

/-- The state changes as states may, unless the loop was lost. -/
def Follows (now : Nat) (s t : Worker υ π α) : Prop :=
  s.state = t.state ∨ s.state.allows t.state = true ∨
    endOfTime ≤ now + s.initialDelay ∧ s.state = .running ∧ s.isAlive = false

theorem endured_nil : Endured [] := ⟨Nat.zero_le _, nofun⟩

theorem Tally.of_endured {s : Worker υ π α} (hstate : s.state.isFailed = false)
    (h : Endured s.faults) : s.Tally := by
  refine ⟨fun _ => h, fun causes hcauses => ?_⟩
  rw [hcauses] at hstate
  cases hstate

theorem kind_eq_iff {e : UnitError} : e.kind = "ExitRequested" ↔ e.isExit = true := by
  cases e <;> simp [UnitError.kind, UnitError.isExit]

/-! ## Changes of state -/

theorem allows_running {s : WorkerState} (hrunning : s ≠ .running) (hfailed : s.isFailed = false) :
    s.allows .running = true := by
  cases s with
  | constructed => rfl
  | running => exact absurd rfl hrunning
  | stopped => rfl
  | failed causes => cases hfailed

theorem eq_or_allows_constructed {s : WorkerState} (hrunning : s ≠ .running) :
    s = .constructed ∨ s.allows .constructed = true := by
  cases s with
  | constructed => exact .inl rfl
  | running => exact absurd rfl hrunning
  | stopped => exact .inr rfl
  | failed causes => exact .inr rfl

theorem Follows.of_running {now : Nat} {s t : Worker υ π α} (hs : s.state = .running)
    (ht : t.state = .running ∨ t.state = .stopped ∨ t.state.isFailed = true) : s.Follows now t := by
  rcases ht with ht | ht | ht
  · exact .inl (hs.trans ht.symm)
  · exact .inr (.inl (by rw [hs, ht]; rfl))
  · refine .inr (.inl ?_)
    rw [hs]
    cases hstate : t.state with
    | failed causes => rfl
    | _ => rw [hstate] at ht; cases ht

variable [Craft υ π α]

/-! ## What moves keep -/

theorem record_tally {s : Worker υ π α} (h : Endured s.faults) (hstate : s.state.isFailed = false)
    (action : α) (e : UnitError) : (s.record action e).Tally := by
  let last : Fault := ⟨Craft.actionName υ action ++ ": " ++ e.message, e.kind⟩
  have hfaults : (s.record action e).faults = s.faults ++ [last] := rfl
  have hlength : (s.record action e).faults.length = s.faults.length + 1 := by simp [hfaults]
  have hcases : (e.isExit || decide (maxFaults < (s.record action e).faults.length)) = true ↔
      e.isExit = true ∨ maxFaults < s.faults.length + 1 := by
    rw [Bool.or_eq_true, decide_eq_true_iff, hlength]
  by_cases hfatal : e.isExit = true ∨ maxFaults < s.faults.length + 1
  · have hfailed : (s.record action e).state =
        .failed ((s.record action e).faults.map (·.text)) := if_pos (hcases.mpr hfatal)
    refine ⟨fun hnot => ?_, fun causes hcauses => ⟨?_, s.faults, last, hfaults, h, ?_⟩⟩
    · rw [hfailed] at hnot
      cases hnot
    · rw [hfailed] at hcauses
      exact (WorkerState.failed.inj hcauses).symm
    · have hbefore := h.1
      rcases hfatal with hexit | hmany
      · exact .inl (kind_eq_iff.mpr hexit)
      · right
        omega
  · -- Neither holds of the new error, so there are no more of them than may be.
    have hgoesOn : (s.record action e).state = s.state := if_neg (mt hcases.mp hfatal)
    rw [not_or] at hfatal
    refine .of_endured (hgoesOn ▸ hstate) ⟨by omega, fun f hf => ?_⟩
    rcases List.mem_append.mp (hfaults ▸ hf) with hf | hf
    · exact h.2 f hf
    · rw [List.mem_singleton.mp hf]
      exact fun hkind => hfatal.1 (kind_eq_iff.mp hkind)

section

omit [Craft υ π α]

theorem sleep_spec (s : Worker υ π α) (span now : Nat) (w : World) :
    (s.sleep span now w).faults = s.faults ∧
      ((s.sleep span now w).state = s.state ∧ (s.sleep span now w).isAlive = true ∨
        (s.sleep span now w).state = .stopped) := by
  unfold sleep
  dsimp only
  split
  · exact ⟨rfl, .inr rfl⟩
  · exact ⟨rfl, .inl ⟨rfl, rfl⟩⟩

end

theorem advance_spec (s : Worker υ π α) (since : Nat) (rest : List α) (now : Nat) (w : World) :
    (s.advance since rest now w).faults = s.faults ∧
      ((s.advance since rest now w).state = s.state ∧
          (s.advance since rest now w).isAlive = true ∨
        (s.advance since rest now w).state = .stopped) := by
  cases rest with
  | nil => exact sleep_spec ..
  | cons action rest => exact ⟨rfl, .inl ⟨rfl, rfl⟩⟩

theorem Tally.advance {s : Worker υ π α} (hstate : s.state.isFailed = false)
    (h : Endured s.faults) (since : Nat) (rest : List α) (now : Nat) (w : World) :
    (s.advance since rest now w).Tally := by
  obtain ⟨hfaults, ⟨hsame, _⟩ | hstopped⟩ := s.advance_spec since rest now w
  · exact .of_endured (hsame ▸ hstate) (hfaults ▸ h)
  · exact .of_endured (hstopped ▸ rfl) (hfaults ▸ h)

variable [Timed υ]

theorem Move.tally {now : Nat} {s t : Worker υ π α} (hmove : Move now s t) (horderly : s.Orderly)
    (h : s.Tally) : t.Tally := by
  have hendured (hstate : s.state = .running) : Endured s.faults := h.endured (hstate ▸ rfl)
  have hrecord (hstate : s.state = .running) (unit : υ) (action : α) (e : UnitError) :
      (({ s with unit } : Worker υ π α).record action e).Tally :=
    record_tally (s := { s with unit }) (hendured hstate) (hstate ▸ rfl) action e
  cases hmove with
  | start =>
      unfold Worker.start
      split
      case isTrue => exact h
      case isFalse hstands =>
          rw [Bool.not_eq_true, Bool.or_eq_false_iff] at hstands
          exact .of_endured rfl (h.endured hstands.2)
  | confirmEnd =>
      unfold Worker.confirmEnd
      split <;> exact ⟨h.endured, h.fatal⟩
  | renew fresh param starts hcycling hbuilt =>
      unfold Worker.replace
      dsimp only
      split
      case isTrue hrunning =>
          have hstate := horderly.running (horderly.isRunning_eq ▸ hrunning)
          exact .of_endured (hstate ▸ rfl) endured_nil
      case isFalse => exact .of_endured rfl endured_nil
  | wake instant w hloop =>
      have hstate := horderly.running (by simp [isAlive, hloop])
      unfold Worker.wake
      split
      · exact ⟨h.endured, h.fatal⟩
      · obtain ⟨hfaults, ⟨hsame, _⟩ | hstopped⟩ := sleep_spec s s.initialDelay now w
        · exact .of_endured (hsame ▸ hstate ▸ rfl) (hfaults ▸ hendured hstate)
        · exact .of_endured (hstopped ▸ rfl) (hfaults ▸ hendured hstate)
  | leave timer hloop hstopping =>
      exact .of_endured rfl (hendured (horderly.running (by simp [isAlive, hloop])))
  | begin since w hloop hunit =>
      have hstate := horderly.running (by simp [isAlive, hloop])
      exact .advance (hstate ▸ rfl) (hendured hstate) ..
  | done hloop hfinish =>
      have hstate := horderly.running (by simp [isAlive, hloop])
      refine .advance ?_ ?_ ..
      · exact hstate ▸ rfl
      · exact hendured hstate
  | endure hloop hfinish hgoesOn =>
      have hstate := horderly.running (by simp [isAlive, hloop])
      exact .advance hgoesOn ((hrecord hstate ..).endured hgoesOn) ..
  | fail hloop hfinish hfailed =>
      have hstate := horderly.running (by simp [isAlive, hloop])
      exact ⟨(hrecord hstate ..).endured, (hrecord hstate ..).fatal⟩
  | stop | setPeriod | ask | pass | live | reach => exact ⟨h.endured, h.fatal⟩

theorem Move.lives {now : Nat} {s t : Worker υ π α} (hmove : Move now s t) (h : s.Lives now) :
    t.Lives now := by
  have hadvance (t : Worker υ π α) (since : Nat) (rest : List α) (w : World) :
      (t.advance since rest now w).Lives now := by
    intro hrunning
    obtain ⟨_, ⟨_, halive⟩ | hstopped⟩ := t.advance_spec since rest now w
    · exact .inl halive
    · cases hstopped.symm.trans hrunning
  cases hmove with
  | start =>
      unfold Worker.start
      split
      · exact h
      · exact fun _ => .inl rfl
  | confirmEnd =>
      unfold Worker.confirmEnd
      split
      case isTrue => exact h
      case isFalse hdead => exact fun hrunning => .inr ((h hrunning).resolve_left hdead)
  | renew fresh param starts hcycling hbuilt =>
      unfold Worker.replace
      dsimp only
      split
      · exact h
      · exact nofun
  | wake instant w hloop =>
      unfold Worker.wake
      split
      case isTrue hlost => exact fun _ => .inr hlost
      case isFalse =>
          intro hrunning
          obtain ⟨_, ⟨_, halive⟩ | hstopped⟩ := sleep_spec s s.initialDelay now w
          · exact .inl halive
          · cases hstopped.symm.trans hrunning
  | leave timer hloop hstopping => exact nofun
  | reach timer hloop => exact fun _ => .inl rfl
  | begin | done | endure => exact hadvance _ _ _ _
  | fail hloop hfinish hfailed =>
      intro hrunning
      rw [hrunning] at hfailed
      cases hfailed
  | stop | setPeriod | ask | pass | live => exact h

theorem Move.follows {now : Nat} {s t : Worker υ π α} (hmove : Move now s t) (horderly : s.Orderly)
    (h : s.Lives now) : s.Follows now t := by
  have hdead (hstands : ¬ s.isRunning = true) : s.isAlive = false := by
    rw [← horderly.isRunning_eq]
    exact eq_false_of_ne_true hstands
  have hadvance (u : Worker υ π α) (hu : u.state = .running) (since : Nat) (rest : List α)
      (w : World) : (u.advance since rest now w).state = .running ∨
        (u.advance since rest now w).state = .stopped := by
    obtain ⟨_, hstate⟩ := u.advance_spec since rest now w
    exact hstate.imp (·.1.trans hu) id
  cases hmove with
  | start =>
      unfold Worker.start
      split
      case isTrue => exact .inl rfl
      case isFalse hstands =>
          rw [Bool.not_eq_true, Bool.or_eq_false_iff] at hstands
          by_cases hrunning : s.state = .running
          · exact .inl hrunning
          · exact .inr (.inl (allows_running hrunning hstands.2))
  | renew fresh param starts hcycling hbuilt =>
      unfold Worker.replace
      dsimp only
      split
      case isTrue => exact .inl rfl
      case isFalse hstands =>
          -- A worker in the running state whose loop is gone has lost it.
          by_cases hrunning : s.state = .running
          · have hlost := (h hrunning).resolve_left fun halive =>
              nomatch (hdead hstands).symm.trans halive
            exact .inr (.inr ⟨hlost, hrunning, hdead hstands⟩)
          · exact (eq_or_allows_constructed hrunning).imp id .inl
  | confirmEnd => unfold Worker.confirmEnd; split <;> exact .inl rfl
  | wake instant w hloop =>
      have hstate := horderly.running (by simp [isAlive, hloop])
      unfold Worker.wake
      split
      · exact .inl rfl
      · obtain ⟨_, hslept⟩ := sleep_spec s s.initialDelay now w
        exact .of_running hstate (hslept.imp (·.1.trans hstate) .inl)
  | leave timer hloop hstopping =>
      exact .of_running (horderly.running (by simp [isAlive, hloop])) (.inr (.inl rfl))
  | begin since w hloop hunit =>
      have hstate := horderly.running (by simp [isAlive, hloop])
      exact .of_running hstate ((hadvance s hstate ..).imp id .inl)
  | @done _ _ _ _ _ _ _ unit hloop hfinish =>
      have hstate := horderly.running (by simp [isAlive, hloop])
      exact .of_running hstate ((hadvance { s with unit } hstate ..).imp id .inl)
  | endure hloop hfinish hgoesOn =>
      have hstate := horderly.running (by simp [isAlive, hloop])
      have hrecord := (record_state hgoesOn).trans hstate
      exact .of_running hstate ((hadvance _ hrecord ..).imp id .inl)
  | fail hloop hfinish hfailed =>
      exact .of_running (horderly.running (by simp [isAlive, hloop])) (.inr (.inr hfailed))
  | stop | setPeriod | ask | pass | live | reach => exact .inl rfl

/-! ## Workers in use -/

/-- What holds of a worker in use. -/
structure Sound (now : Nat) (s : Worker υ π α) : Prop where
  tally : s.Tally
  lives : s.Lives now

theorem Reachable.sound [BEq α] {actions : List α} {param : π} {s : Worker υ π α} {now : Nat}
    (h : Reachable actions param s now) : s.Orderly ∧ s.Sound now := by
  refine h.invariant ?_ ?_ ?_
  · intro s now hmade
    obtain ⟨hstate, _, hfaults, _⟩ := hmade.spec
    refine ⟨.of_endured (hstate ▸ rfl) (hfaults ▸ endured_nil), fun hrunning => ?_⟩
    cases hstate.symm.trans hrunning
  · intro now s t horderly hsound hmove
    exact ⟨hmove.tally horderly hsound.tally, hmove.lives hsound.lives⟩
  · intro now later s hsound hle
    refine ⟨hsound.tally, fun hrunning => (hsound.lives hrunning).imp id fun hlost => ?_⟩
    omega

theorem Moves.follow {now : Nat} {s t : Worker υ π α} (hmoves : Moves now s t)
    (horderly : s.Orderly) (hsound : s.Sound now) :
    Relation.ReflTransGen (fun s t => Move now s t ∧ s.Follows now t) s t := by
  -- From the front: each move is made by a worker of which the invariant holds.
  induction hmoves using Relation.ReflTransGen.head_induction_on with
  | refl => exact .refl
  | head hmove _ ih =>
      have hnext : Sound now _ :=
        ⟨hmove.tally horderly hsound.tally, hmove.lives hsound.lives⟩
      exact .head ⟨hmove, hmove.follows horderly hsound.lives⟩ (ih (hmove.orderly horderly) hnext)

/-- A worker runs when it is in the running state, unless its first wait is too long:
such a loop is lost when it wakes. The errors fit the state, which changes as states
may. -/
theorem Reachable.state_fits [BEq α] {actions : List α} {param : π} {s : Worker υ π α}
    {now : Nat} (h : Reachable actions param s now) :
    (s.isRunning = true → s.state = .running) ∧
      (s.state = .running → s.isRunning = true ∨ endOfTime ≤ now + s.initialDelay) ∧
      (∀ instant w, s.loop = .spawned instant → endOfTime ≤ now + s.initialDelay →
        (s.wake now w).state = .running ∧ (s.wake now w).isRunning = false) ∧
      (s.summary now).kinds.length = (s.faults.map (·.text)).length ∧ s.Tally ∧
      ∀ w d, s.Admits now w d →
        Relation.ReflTransGen (fun s t => Move now s t ∧ s.Follows now t) s (s.act now w d).1 := by
  obtain ⟨horderly, hsound⟩ := h.sound
  have hrunning := horderly.isRunning_eq
  refine ⟨?_, ?_, ?_, by simp [summary], hsound.tally, fun w d hadmits => ?_⟩
  · rw [hrunning]
    exact horderly.running
  · rw [hrunning]
    exact hsound.lives
  · intro instant w hloop htoolong
    rw [wake, if_pos htoolong]
    exact ⟨horderly.running (by simp [isAlive, hloop]), rfl⟩
  · exact Moves.follow (horderly.act_moves now w d hadmits) horderly hsound

/-! ## A unit that asks its worker to end -/

def clockParam : SimulatedParam := ⟨"clock", "first", ["Tick"]⟩

def exitTrack : Simulation.UnitTrack :=
  ⟨["Tick"], ∅, [("Tick", ⟨[⟨0, .fail (.exit "done")⟩]⟩)], [], []⟩

def exitWorld : World where
  simulation := { units := Table.empty.insert "clock" exitTrack }

def clock : Worker SimulatedUnit SimulatedParam String where
  name := "clock"
  param := clockParam
  actions := ["Tick"]
  unit := ⟨"clock", "first"⟩
  period := Duration.ofSeconds 1
  initialDelay := 0
  stopTimeout := usualStopTimeout

def exitedClock : Worker SimulatedUnit SimulatedParam String :=
  let woken := ((clock.start 0).turn 0 exitWorld).1
  let begun := (woken.turn 0 exitWorld).1
  (begun.turn 0 exitWorld).1

theorem reachable_exitedClock : Reachable ["Tick", "Chime"] clockParam exitedClock 0 := by
  have hnew : Worker.new "clock" clockParam ["Tick", "Chime"] (Duration.ofSeconds 1) (.given 0) 0
      exitWorld = (.ok clock, (SimulatedUnit.nextBuild exitWorld clockParam).2) := rfl
  have hmade : Made ["Tick", "Chime"] clockParam clock 0 := .new usualStopTimeout hnew
  have hstarted : Leads clock 0 [.start] (clock.start 0) 0 := .act .start exitWorld .refl trivial
  have hwoken := hstarted.act .turn exitWorld fun _ => rfl
  have hbegun := hwoken.act .turn exitWorld fun _ => rfl
  have hexited := hbegun.act .turn exitWorld fun _ => rfl
  exact ⟨clock, 0, _, hmade, hexited⟩

theorem state_fits_exitedClock :
    Reachable ["Tick", "Chime"] clockParam exitedClock 0 ∧
      exitedClock.state = .failed ["Tick: Exit requested: done"] ∧
      (exitedClock.isRunning = true → exitedClock.state = .running) ∧
      (exitedClock.state = .running → exitedClock.isRunning = true ∨
        endOfTime ≤ 0 + exitedClock.initialDelay) ∧
      (∀ instant w, exitedClock.loop = .spawned instant →
        endOfTime ≤ 0 + exitedClock.initialDelay →
          (exitedClock.wake 0 w).state = .running ∧ (exitedClock.wake 0 w).isRunning = false) ∧
      (exitedClock.summary 0).kinds.length = (exitedClock.faults.map (·.text)).length ∧
      exitedClock.Tally ∧
      ∀ w d, exitedClock.Admits 0 w d →
        Relation.ReflTransGen (fun s t => Move 0 s t ∧ s.Follows 0 t) exitedClock
          (exitedClock.act 0 w d).1 :=
  ⟨reachable_exitedClock, by decide, reachable_exitedClock.state_fits⟩

/-! ## A loop whose first wait is too long -/

def endlessSpan : Nat := Duration.ofSeconds (twoTo 64 - 1)

def endlessClock : Worker SimulatedUnit SimulatedParam String :=
  { clock with period := Duration.wholeMillis endlessSpan, initialDelay := endlessSpan }

def lostClock : Worker SimulatedUnit SimulatedParam String :=
  ((endlessClock.start 0).turn 0 exitWorld).1

theorem reachable_lostClock : Reachable ["Tick", "Chime"] clockParam lostClock 0 := by
  have hnew : Worker.new "clock" clockParam ["Tick", "Chime"] endlessSpan (.given endlessSpan) 0
      exitWorld = (.ok endlessClock, (SimulatedUnit.nextBuild exitWorld clockParam).2) := rfl
  have hmade : Made ["Tick", "Chime"] clockParam endlessClock 0 := .new usualStopTimeout hnew
  have hstarted : Leads endlessClock 0 [.start] (endlessClock.start 0) 0 :=
    .act .start exitWorld .refl trivial
  have hlost := hstarted.act .turn exitWorld fun _ => rfl
  exact ⟨endlessClock, 0, _, hmade, hlost⟩

/-- The worker does not run in the running state, and a reset changes the state as
it may not. -/
theorem not_state_fits_lostClock :
    Reachable ["Tick", "Chime"] clockParam lostClock 0 ∧ lostClock.state = .running ∧
      lostClock.isRunning = false ∧
      (lostClock.act 0 exitWorld (.reset none false)).1.state = .constructed ∧
      WorkerState.running.allows .constructed = false :=
  ⟨reachable_lostClock, rfl, rfl, rfl, rfl⟩

end EdgeAgent.Worker
