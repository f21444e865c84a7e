import EdgeAgent.Proofs.Worker.Idle
import EdgeAgent.Proofs.Worker.States

/-! # What a worker performs, and when it gives up

The log of a unit shows the actions of its worker, cycle after cycle, until a call is
fatal: one that asks the worker to end, or one error more than a worker endures.
-/

namespace EdgeAgent

namespace Call

variable {α : Type}

def error? (c : Call α) : Option UnitError :=
  match c.outcome with
  | .failed e => some e
  | .done | .crashed => none

def fault? {π : Type} (υ : Type) [Craft υ π α] (c : Call α) : Option Worker.Fault :=
  c.error?.map fun e => ⟨Craft.actionName υ c.action ++ ": " ++ e.message, e.kind⟩

end Call

namespace Worker

variable {υ π α : Type}

/-- The last one of the calls asks the worker to end, or brings one error too many. -/
def IsFatal (calls : List (Call α)) : Prop :=
  ∃ before last e, calls = before ++ [last] ∧ last.error? = some e ∧
    (e.isExit = true ∨ (calls.filterMap Call.error?).length = maxFaults + 1)

/-- What is left of the cycle. -/
def pending (s : Worker υ π α) : List α :=
  match s.loop with
  | .cycling _ action rest _ _ => action :: rest
  | _ => []

theorem pending_of_isCycling {s : Worker υ π α} (h : s.isCycling = false) : s.pending = [] := by
  cases hloop : s.loop <;> simp_all [isCycling, pending]

theorem sleep_frame (s : Worker υ π α) (span now : Nat) (w : World) :
    (s.sleep span now w).unit = s.unit ∧ (s.sleep span now w).actions = s.actions ∧
      (s.sleep span now w).pending = [] := by
  refine ⟨?_, ?_, pending_of_isCycling (isCycling_sleep ..)⟩
  all_goals unfold sleep; dsimp only; split <;> rfl

theorem isCycling_serveSwaps (now : Nat) (cs : List (Claim υ π)) {s : Worker υ π α}
    (h : s.isCycling = false) : (serveSwaps now cs s).isCycling = false := by
  induction cs generalizing s with
  | nil => exact h
  | cons c cs ih =>
      cases c with
      | swap fresh param starts => exact ih (isCycling_replace h ..)
      | cycle => exact h
      | guest => exact h

theorem replace_unit (s : Worker υ π α) (fresh : υ) (param : π) (starts : Bool) (now : Nat) :
    (s.replace fresh param starts now).unit = fresh := by
  unfold replace start
  dsimp only
  split
  · rfl
  · split
    · split <;> rfl
    · rfl

theorem Endured.of_append {fs gs : List Fault} (h : Endured (fs ++ gs)) : Endured fs := by
  obtain ⟨hlength, hkinds⟩ := h
  rw [List.length_append] at hlength
  exact ⟨by omega, fun f hf => hkinds f (List.mem_append_left gs hf)⟩

variable [Craft υ π α]

theorem advance_frame (s : Worker υ π α) (since : Nat) (rest : List α) (now : Nat) (w : World) :
    (s.advance since rest now w).unit = s.unit ∧
      (s.advance since rest now w).actions = s.actions ∧
        (s.advance since rest now w).pending = rest := by
  cases rest with
  | nil => exact sleep_frame ..
  | cons action rest => exact ⟨rfl, rfl, rfl⟩

/-! ## Errors in the log -/

theorem exists_fault {c : Call α} {e : UnitError} (h : c.error? = some e) :
    ∃ f : Fault, c.fault? υ = some f ∧ f.kind = e.kind := by
  refine ⟨⟨Craft.actionName υ c.action ++ ": " ++ e.message, e.kind⟩, ?_, rfl⟩
  rw [Call.fault?, h]
  rfl

theorem length_faults (calls : List (Call α)) :
    (calls.filterMap (Call.fault? υ)).length = (calls.filterMap Call.error?).length := by
  induction calls with
  | nil => rfl
  | cons c calls ih => cases herror : c.error? <;> simp [Call.fault?, herror, ih]

theorem not_isFatal {calls : List (Call α)} (h : Endured (calls.filterMap (Call.fault? υ))) :
    ¬ IsFatal calls := by
  rintro ⟨before, last, e, rfl, herror, hexit | hmany⟩
  · obtain ⟨f, hf, hkind⟩ := exists_fault (υ := υ) herror
    have hmem : f ∈ (before ++ [last]).filterMap (Call.fault? υ) :=
      List.mem_filterMap.mpr ⟨last, by simp, hf⟩
    exact h.2 f hmem (hkind.trans (kind_eq_iff.mpr hexit))
  · have hlength := h.1
    rw [length_faults] at hlength
    omega

/-! ## Turns -/

theorem serveSwaps_calls (now : Nat) {cs : List (Claim (Logged υ α) π)}
    (hbuilt : ∀ c ∈ cs, c.IsBuilt) (s : Worker (Logged υ α) π α) :
    (serveSwaps now cs s).unit.calls = s.unit.calls ∨ (serveSwaps now cs s).unit.calls = [] := by
  induction cs generalizing s with
  | nil => exact .inl rfl
  | cons c cs ih =>
      cases c with
      | swap fresh param starts =>
          obtain ⟨⟨_, _, _, hbuild⟩, hothers⟩ := List.forall_mem_cons.mp hbuilt
          have hnext := ih hothers (s.replace fresh param starts now)
          rw [replace_unit, Logged.calls_of_build hbuild, or_self] at hnext
          exact .inr hnext
      | cycle => exact .inl rfl
      | guest => exact .inl rfl

theorem goOn_frame {s : Worker (Logged υ α) π α} (hbuilt : ∀ c ∈ s.claims, c.IsBuilt)
    (since : Nat) (rest : List α) (now : Nat) (w : World) :
    (s.goOn since rest now w).1.pending = rest ∧
      ((s.goOn since rest now w).1.unit.calls = s.unit.calls ∨
        (s.goOn since rest now w).1.unit.calls = []) := by
  cases rest with
  | nil =>
      obtain ⟨hunit, _, _⟩ := s.sleep_frame (s.period - (now - since)) now w
      refine ⟨pending_of_isCycling (isCycling_serveSwaps now _ (isCycling_sleep ..)), ?_⟩
      rw [← hunit]
      refine serveSwaps_calls now (fun c hc => hbuilt c ?_) _
      rw [sleep_claims] at hc
      exact List.mem_of_mem_drop hc
  | cons action rest => exact ⟨rfl, .inl rfl⟩

theorem loopTurn_of_asleep {s : Worker (Logged υ α) π α} {timer : Timer}
    (hloop : s.loop = .asleep timer) (hstopping : s.stopping = false) (hclaims : s.claims = [])
    (now : Nat) (w : World) : (s.loopTurn now w).1.pending = s.actions := by
  have hturn : s.loopTurn now w =
      ({ s with loop := .claiming now, claims := [.cycle] } : Worker _ π α).goOn now s.actions now w := by
    simp [loopTurn, hloop, hstopping, hclaims, claim, serveSwaps, hasUnit]
  rw [hturn]
  refine (goOn_frame (fun c hc => ?_) ..).1
  rw [List.mem_singleton.mp hc]
  trivial

/-! ## Moves -/

/-- The log of the unit fits the worker. -/
structure Logs (s : Worker (Logged υ α) π α) : Prop where
  faults : s.faults = s.unit.calls.filterMap (Call.fault? υ)
  order : ∃ k rest, s.unit.calls.map (·.action) ++ rest = (List.replicate k s.actions).flatten ∧
    (s.state.isFailed = false → rest = s.pending)
  last : s.state.isFailed = true →
    ∃ before last e, s.unit.calls = before ++ [last] ∧ last.error? = some e

theorem Logs.of_same {s t : Worker (Logged υ α) π α} (h : s.Logs)
    (hcalls : t.unit.calls = s.unit.calls) (hfaults : t.faults = s.faults)
    (hactions : t.actions = s.actions) (hpending : t.pending = s.pending)
    (hfailed : t.state.isFailed = s.state.isFailed) : t.Logs := by
  refine ⟨?_, ?_, ?_⟩
  · rw [hfaults, hcalls, h.faults]
  · rw [hcalls, hactions, hpending, hfailed]
    exact h.order
  · rw [hcalls, hfailed]
    exact h.last

theorem Logs.of_sleep {s : Worker (Logged υ α) π α} (h : s.Logs) (hstate : s.state = .running)
    (hpending : s.pending = []) (span now : Nat) (w : World) : (s.sleep span now w).Logs := by
  obtain ⟨hunit, hactions, hslept⟩ := s.sleep_frame span now w
  obtain ⟨hfaults, hnext⟩ := sleep_spec s span now w
  refine h.of_same (by rw [hunit]) hfaults hactions (hslept.trans hpending.symm) ?_
  rcases hnext with ⟨hnext, _⟩ | hnext
  · rw [hnext]
  · rw [hnext, hstate]
    rfl

theorem Logs.order_of_running {s : Worker (Logged υ α) π α} (h : s.Logs)
    (hstate : s.state = .running) :
    ∃ k, s.unit.calls.map (·.action) ++ s.pending = (List.replicate k s.actions).flatten := by
  obtain ⟨k, rest, horder, hrest⟩ := h.order
  rw [hrest (hstate ▸ rfl)] at horder
  exact ⟨k, horder⟩

theorem Logs.order_of_call {s : Worker (Logged υ α) π α} (h : s.Logs) (hstate : s.state = .running)
    {since : Nat} {action : α} {rest : List α} {ending : Timer}
    {course : Course (Logged υ α) UnitError} {outcome : Outcome UnitError} {calls : List (Call α)}
    (hloop : s.loop = .cycling since action rest ending course)
    (hcalls : calls = s.unit.calls ++ [⟨action, outcome⟩]) :
    ∃ k, calls.map (·.action) ++ rest = (List.replicate k s.actions).flatten := by
  obtain ⟨k, horder⟩ := h.order_of_running hstate
  refine ⟨k, horder ▸ ?_⟩
  simp [hcalls, pending, hloop]

theorem Logs.faults_of_failed {s : Worker (Logged υ α) π α} (h : s.Logs) {action : α}
    {e : UnitError} {unit : Logged υ α} (hcalls : unit.calls = s.unit.calls ++ [⟨action, .failed e⟩]) :
    (({ s with unit } : Worker _ π α).record action e).faults =
      unit.calls.filterMap (Call.fault? υ) := by
  rw [hcalls, List.filterMap_append, ← h.faults]
  rfl

theorem Logs.of_advance {s : Worker (Logged υ α) π α} (hstate : s.state.isFailed = false)
    (hfaults : s.faults = s.unit.calls.filterMap (Call.fault? υ)) {rest : List α}
    (horder : ∃ k, s.unit.calls.map (·.action) ++ rest = (List.replicate k s.actions).flatten)
    (since now : Nat) (w : World) : (s.advance since rest now w).Logs := by
  obtain ⟨hunit, hactions, hpending⟩ := s.advance_frame since rest now w
  obtain ⟨hsame, hnext⟩ := s.advance_spec since rest now w
  have hfailed : (s.advance since rest now w).state.isFailed = false := by
    rcases hnext with ⟨hnext, _⟩ | hnext
    · rw [hnext, hstate]
    · rw [hnext]
      rfl
  refine ⟨?_, ?_, ?_⟩
  · rw [hsame, hunit, hfaults]
  · obtain ⟨k, horder⟩ := horder
    rw [hunit, hactions, hpending]
    exact ⟨k, rest, horder, fun _ => rfl⟩
  · rw [hfailed]
    nofun

theorem Logs.last_of_failed {s : Worker (Logged υ α) π α} (h : s.Logs) (htally : s.Tally)
    (hfailed : s.state.isFailed = true) :
    ∃ before last e, s.unit.calls = before ++ [last] ∧ last.error? = some e ∧
      Endured (before.filterMap (Call.fault? υ)) ∧
        (e.isExit = true ∨ (s.unit.calls.filterMap Call.error?).length = maxFaults + 1) := by
  obtain ⟨before, last, e, hcalls, herror⟩ := h.last hfailed
  obtain ⟨causes, hstate⟩ : ∃ causes, s.state = .failed causes := by
    cases hstate : s.state with
    | failed causes => exact ⟨causes, rfl⟩
    | _ => rw [hstate] at hfailed; cases hfailed
  obtain ⟨_, endured, fatal, hfaults, hendured, hfatal⟩ := htally.fatal causes hstate
  obtain ⟨f, hf, hkind⟩ := exists_fault (υ := υ) herror
  have hsplit : before.filterMap (Call.fault? υ) ++ [f] = endured ++ [fatal] := by
    rw [← hfaults, h.faults, hcalls, List.filterMap_append, List.filterMap_cons_some hf]
    rfl
  -- The faults are the errors of the log, so the fatal one belongs to the last call.
  obtain ⟨hbefore, hlast⟩ := List.append_inj' hsplit rfl
  refine ⟨before, last, e, hcalls, herror, hbefore ▸ hendured, ?_⟩
  rw [← length_faults (υ := υ), ← h.faults]
  refine hfatal.imp (fun hexit => kind_eq_iff.mp ?_) id
  rw [← hkind, (List.cons.inj hlast).1]
  exact hexit

theorem Logs.isFatal_iff {s : Worker (Logged υ α) π α} (h : s.Logs) (htally : s.Tally) :
    s.state.isFailed = true ↔ IsFatal s.unit.calls := by
  cases hfailed : s.state.isFailed with
  | false =>
      have hendured := htally.endured hfailed
      rw [h.faults] at hendured
      exact ⟨nofun, fun hfatal => absurd hfatal (not_isFatal hendured)⟩
  | true =>
      obtain ⟨before, last, e, hcalls, herror, _, hfatal⟩ := h.last_of_failed htally hfailed
      exact ⟨fun _ => ⟨before, last, e, hcalls, herror, hfatal⟩, fun _ => rfl⟩

theorem Logs.first_isFatal {s : Worker (Logged υ α) π α} (h : s.Logs) (htally : s.Tally)
    {earlier later : List (Call α)} (hcalls : s.unit.calls = earlier ++ later)
    (hlater : later ≠ []) : ¬ IsFatal earlier := by
  cases hfailed : s.state.isFailed with
  | false =>
      have hendured := htally.endured hfailed
      rw [h.faults, hcalls, List.filterMap_append] at hendured
      exact not_isFatal hendured.of_append
  | true =>
      obtain ⟨before, last, e, hlast, _, hendured, _⟩ := h.last_of_failed htally hfailed
      obtain ⟨between, final, rfl⟩ := List.eq_nil_or_concat later |>.resolve_left hlater
      rw [hcalls, List.concat_eq_append, ← List.append_assoc] at hlast
      rw [← (List.append_inj' hlast rfl).1, List.filterMap_append] at hendured
      exact not_isFatal hendured.of_append

variable [Timed υ]

theorem Move.logs {now : Nat} {s t : Worker (Logged υ α) π α} (hmove : Move now s t)
    (horderly : s.Orderly) (h : s.Logs) : t.Logs := by
  cases hmove with
  | start =>
      unfold Worker.start
      split
      case isTrue => exact h
      case isFalse hstands =>
          rw [Bool.not_eq_true, Bool.or_eq_false_iff, horderly.isRunning_eq] at hstands
          refine h.of_same rfl rfl rfl ?_ hstands.2.symm
          exact (pending_of_isCycling (isCycling_of_isAlive hstands.1)).symm
  | confirmEnd =>
      unfold Worker.confirmEnd
      split
      case isTrue => exact h
      case isFalse hdead =>
          have hpending := pending_of_isCycling (isCycling_of_isAlive (eq_false_of_ne_true hdead))
          exact h.of_same rfl rfl rfl hpending.symm rfl
  | renew fresh param starts hcycling hbuilt =>
      obtain ⟨_, _, _, hbuild⟩ := hbuilt
      have hcalls := Logged.calls_of_build hbuild
      have hpending := pending_of_isCycling hcycling
      cases hrunning : s.isRunning with
      | true =>
          have hstate := horderly.running (horderly.isRunning_eq ▸ hrunning)
          rw [replace_of_running hrunning]
          refine ⟨by simp [hcalls], ⟨0, [], by simp [hcalls], fun _ => hpending.symm⟩, ?_⟩
          rw [hstate]
          nofun
      | false =>
          rw [replace_of_not_running hrunning]
          exact ⟨by simp [hcalls], ⟨0, [], by simp [hcalls], fun _ => hpending.symm⟩, nofun⟩
  | wake instant w hloop =>
      have hstate := horderly.running (by simp [isAlive, hloop])
      have hpending : s.pending = [] := by simp [pending, hloop]
      unfold Worker.wake
      split
      · exact h.of_same rfl rfl rfl hpending.symm rfl
      · exact h.of_sleep hstate hpending ..
  | leave timer hloop hstopping =>
      have hstate := horderly.running (by simp [isAlive, hloop])
      exact h.of_same rfl rfl rfl (by simp [pending, hloop, Worker.leave]) (hstate ▸ rfl)
  | reach timer hloop => exact h.of_same rfl rfl rfl (by simp [pending, hloop]) rfl
  | begin since w hloop hunit =>
      have hstate := horderly.running (by simp [isAlive, hloop])
      have hpending : s.pending = [] := by simp [pending, hloop]
      obtain ⟨k, horder⟩ := h.order_of_running hstate
      rw [hpending, List.append_nil] at horder
      -- One cycle more than before.
      refine .of_advance (hstate ▸ rfl) h.faults ⟨k + 1, ?_⟩ ..
      rw [horder, List.replicate_succ', List.flatten_append, List.flatten_singleton]
  | done hloop hfinish =>
      have hstate := horderly.running (by simp [isAlive, hloop])
      obtain ⟨c, rfl⟩ := horderly.logged hloop
      have hcalls := Logged.calls_of_finish hfinish
      refine .of_advance ?_ ?_ ?_ ..
      · exact hstate ▸ rfl
      · rw [hcalls, List.filterMap_append, ← h.faults]
        exact (List.append_nil _).symm
      · exact h.order_of_call hstate hloop hcalls
  | endure hloop hfinish hgoesOn =>
      have hstate := horderly.running (by simp [isAlive, hloop])
      obtain ⟨c, rfl⟩ := horderly.logged hloop
      have hcalls := Logged.calls_of_finish hfinish
      exact .of_advance hgoesOn (h.faults_of_failed hcalls) (h.order_of_call hstate hloop hcalls) ..
  | fail hloop hfinish hfailed =>
      have hstate := horderly.running (by simp [isAlive, hloop])
      obtain ⟨c, rfl⟩ := horderly.logged hloop
      have hcalls := Logged.calls_of_finish hfinish
      obtain ⟨k, horder⟩ := h.order_of_call hstate hloop hcalls
      refine ⟨h.faults_of_failed hcalls, ⟨k, _, horder, fun hnot => ?_⟩, fun _ => ?_⟩
      · cases hfailed.symm.trans hnot
      · exact ⟨_, _, _, hcalls, rfl⟩
  | stop | setPeriod | ask | pass | live => exact ⟨h.faults, h.order, h.last⟩

theorem Move.actions_eq {now : Nat} {s t : Worker υ π α} (hmove : Move now s t) :
    t.actions = s.actions := by
  cases hmove with
  | start => unfold Worker.start; split <;> rfl
  | confirmEnd => unfold Worker.confirmEnd; split <;> rfl
  | renew => unfold Worker.replace; dsimp only; split <;> rfl
  | wake instant w hloop =>
      unfold Worker.wake
      split
      · rfl
      · exact (sleep_frame ..).2.1
  | begin | done | endure => exact (advance_frame ..).2.1
  | stop | setPeriod | ask | pass | live | leave | reach | fail => rfl

theorem Reachable.logs [BEq α] {actions : List α} {param : π} {s : Worker (Logged υ α) π α}
    {now : Nat} (h : Reachable actions param s now) :
    s.actions = actions.filter (Craft.capabilities υ param).contains ∧ s.Logs := by
  refine (h.invariant (P := fun _ s => s.actions = actions.filter
    (Craft.capabilities υ param).contains ∧ s.Logs) ?_ ?_ ?_).2
  · intro s now hmade
    obtain ⟨hstate, hloop, hfaults, _, hactions, w, w', hbuild⟩ := hmade.spec
    have hcalls := Logged.calls_of_build hbuild
    have hcycling : s.isCycling = false := by simp [isCycling, hloop]
    refine ⟨hactions, by simp [hfaults, hcalls], ?_, ?_⟩
    · exact ⟨0, [], by simp [hcalls], fun _ => (pending_of_isCycling hcycling).symm⟩
    · intro hfailed
      rw [hstate] at hfailed
      cases hfailed
  · intro now s t horderly hs hmove
    exact ⟨hmove.actions_eq.trans hs.1, hmove.logs horderly hs.2⟩
  · exact fun h _ => h

theorem loopTurn_of_cycling {s : Worker (Logged υ α) π α} (horderly : s.Orderly)
    (hlogs : s.Logs) (htally : s.Tally) {since : Nat} {action : α}
    {rest : List α} {ending : Timer} {course : Course (Logged υ α) UnitError}
    (hloop : s.loop = .cycling since action rest ending course) (now : Nat) (w : World)
    (hcrash : s.crashes w = false) :
    ∃ outcome, ((s.loopTurn now w).1.unit.calls = s.unit.calls ++ [⟨action, outcome⟩] ∨
        (s.loopTurn now w).1.unit.calls = []) ∧
      ((s.loopTurn now w).1.pending = rest ∨ IsFatal (s.unit.calls ++ [⟨action, outcome⟩])) := by
  obtain ⟨c, rfl⟩ := horderly.logged hloop
  have hturn : s.loopTurn now w = s.finish since action rest (Logged.course c action) now w := by
    rw [loopTurn, hloop]
  rw [hturn]
  rcases hfinish : (Logged.course c action).finish s.unit w with ⟨outcome, unit, w'⟩
  have hcalls := Logged.calls_of_finish hfinish
  refine ⟨outcome, ?_⟩
  rw [← hcalls]
  unfold finish
  rw [hfinish]
  cases outcome with
  | done =>
      obtain ⟨hpending, hsame⟩ := goOn_frame (s := { s with unit }) horderly.built since rest now w'
      exact ⟨hsame, .inl hpending⟩
  | crashed => simp [crashes, hloop, hfinish] at hcrash
  | failed e =>
      dsimp only
      split
      case isTrue hfailed =>
          have hmove : Move now s _ := .fail hloop hfinish hfailed
          have hfatal := (hmove.logs horderly hlogs).isFatal_iff (hmove.tally horderly htally)
          refine ⟨?_, .inr (hfatal.mp hfailed)⟩
          exact serveSwaps_calls now (fun d hd => horderly.built d (List.mem_of_mem_drop hd)) _
      case isFalse hfailed =>
          obtain ⟨hpending, hsame⟩ :=
            goOn_frame (s := ({ s with unit } : Worker _ π α).record action e) horderly.built
              since rest now w'
          exact ⟨hsame, .inl hpending⟩

/-! ## Workers in use -/

/-- What a worker in use has performed, and when it gives up. -/
structure Account [BEq α] (actions : List α) (param : π) (now : Nat)
    (s : Worker (Logged υ α) π α) : Prop where
  known : s.actions = actions.filter (Craft.capabilities υ param).contains
  /-- The actions are performed cycle after cycle; only a failure cuts a cycle short. -/
  order : ∃ k rest, s.unit.calls.map (·.action) ++ rest = (List.replicate k s.actions).flatten ∧
    (s.state.isFailed = false → rest = s.pending)
  failed : s.state.isFailed = true ↔ IsFatal s.unit.calls
  causes : ∀ causes, s.state = .failed causes →
    causes = (s.unit.calls.filterMap (Call.fault? υ)).map (·.text)
  first : ∀ earlier later, s.unit.calls = earlier ++ later → later ≠ [] → ¬ IsFatal earlier
  begins : ∀ timer w, s.loop = .asleep timer → s.stopping = false → s.claims = [] →
    (s.loopTurn now w).1.pending = s.actions
  answers : ∀ since action rest ending course w,
    s.loop = .cycling since action rest ending course → s.crashes w = false →
      ∃ outcome, ((s.loopTurn now w).1.unit.calls = s.unit.calls ++ [⟨action, outcome⟩] ∨
          (s.loopTurn now w).1.unit.calls = []) ∧
        ((s.loopTurn now w).1.pending = rest ∨ IsFatal (s.unit.calls ++ [⟨action, outcome⟩]))
  /-- Nothing is performed after a failure, before a fresh unit is put in place. -/
  rests : s.state.isFailed = true → (∀ c ∈ s.claims, c.isSwap = false) →
    ∀ ds t later, Leads s now ds t later → (∀ d ∈ ds, d.isReset = false) →
      t.isAlive = false ∧ t.state = s.state ∧ t.unit.calls = s.unit.calls
  /-- Nothing is performed while the loop is not there, before someone starts it. -/
  stands : s.isAlive = false → (∀ c ∈ s.claims, c.starts = false) →
    ∀ ds t later, Leads s now ds t later → (∀ d ∈ ds, d.starts = false) →
      t.isAlive = false ∧ (t.unit.calls = s.unit.calls ∨ t.unit.calls = [])

/-- A worker performs those of its actions that its unit has, cycle after cycle, up to
the first call that is fatal: then it has failed, and performs nothing more before a
fresh unit is put in place and the loop is started. Every log of the worker shows it,
and there is one. -/
theorem Reachable.account [BEq α] {actions : List α} {param : π} {s : Worker υ π α} {now : Nat}
    (h : Reachable actions param s now) :
    (∃ t : Worker (Logged υ α) π α, Reachable actions param t now ∧ t.forget = s) ∧
      ∀ t : Worker (Logged υ α) π α, Reachable actions param t now → t.forget = s →
        t.Account actions param now := by
  refine ⟨h.logged, fun t ht _ => ?_⟩
  obtain ⟨horderly, hsound⟩ := ht.sound
  obtain ⟨hactions, hlogs⟩ := ht.logs
  have htally := hsound.tally
  refine ⟨hactions, hlogs.order, hlogs.isFatal_iff htally, ?_, ?_, ?_, ?_, ?_, ?_⟩
  · intro causes hstate
    rw [(htally.fatal causes hstate).1, hlogs.faults]
  · exact fun earlier later hcalls hlater => hlogs.first_isFatal htally hcalls hlater
  · exact fun timer w hloop hstopping hclaims => loopTurn_of_asleep hloop hstopping hclaims now w
  · exact fun since action rest ending course w hloop hcrash =>
      loopTurn_of_cycling horderly hlogs htally hloop now w hcrash
  · exact fun hfailed hclaims ds t later hleads hds => hleads.rests horderly hfailed hclaims hds
  · exact fun hdead hclaims ds t later hleads hds => hleads.stands horderly hdead hclaims hds

def loggedClock : Worker (Logged SimulatedUnit String) SimulatedParam String where
  name := "clock"
  param := clockParam
  actions := ["Tick"]
  unit := ⟨⟨"clock", "first"⟩, []⟩
  period := Duration.ofSeconds 1
  initialDelay := 0
  stopTimeout := usualStopTimeout

/-- Its loop has woken, begun a cycle and performed its action, which ends it. -/
def exitedLog : Worker (Logged SimulatedUnit String) SimulatedParam String :=
  let woken := ((loggedClock.start 0).turn 0 exitWorld).1
  let begun := (woken.turn 0 exitWorld).1
  (begun.turn 0 exitWorld).1

theorem reachable_exitedLog : Reachable ["Tick", "Chime"] clockParam exitedLog 0 := by
  have hnew : Worker.new "clock" clockParam ["Tick", "Chime"] (Duration.ofSeconds 1) (.given 0) 0
      exitWorld = (.ok loggedClock, (SimulatedUnit.nextBuild exitWorld clockParam).2) := rfl
  have hmade : Made ["Tick", "Chime"] clockParam loggedClock 0 := .new usualStopTimeout hnew
  have hstarted : Leads loggedClock 0 [.start] (loggedClock.start 0) 0 :=
    .act .start exitWorld .refl trivial
  have hwoken := hstarted.act .turn exitWorld fun _ => rfl
  have hbegun := hwoken.act .turn exitWorld fun _ => rfl
  have hexited := hbegun.act .turn exitWorld fun _ => rfl
  exact ⟨loggedClock, 0, _, hmade, hexited⟩

theorem account_exitedLog :
    Reachable ["Tick", "Chime"] clockParam exitedClock 0 ∧
      Reachable ["Tick", "Chime"] clockParam exitedLog 0 ∧ exitedLog.forget = exitedClock ∧
      exitedLog.state = .failed ["Tick: Exit requested: done"] ∧
      exitedLog.unit.calls.map (·.action) = ["Tick"] ∧
      exitedLog.Account ["Tick", "Chime"] clockParam 0 :=
  ⟨reachable_exitedClock, reachable_exitedLog, rfl, rfl, rfl,
    reachable_exitedClock.account.2 exitedLog reachable_exitedLog rfl⟩

end Worker
end EdgeAgent
