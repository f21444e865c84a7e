import EdgeAgent.Proofs.Worker.Queue
import EdgeAgent.Proofs.Worker.States

/-! # Workers step by step

A worker in use, whatever befalls it: the loop takes its turns, actions may fail or
crash, and others start and stop it, work with its unit and replace it, or give up
waiting for it. A step is first what the loop does in its turn or what is done from
outside with the same unit; then the unit goes to those who wait for it, or the loop
is started. A loop that is there outlives the second part unchanged.
-/

namespace EdgeAgent.Worker

variable {υ π α β : Type} [Craft υ π α]

theorem Made.param [BEq α] {actions : List α} {param : π} {s : Worker υ π α} {now : Nat}
    (h : Made actions param s now) : s.param = param := by
  cases h with
  | @new name period now delay w w' s stopTimeout hnew =>
      unfold Worker.new at hnew
      split at hnew
      · cases hnew
      · rcases hbuild : Craft.build (υ := υ) param now w with ⟨unit | unit, w''⟩
        all_goals rw [hbuild] at hnew; cases hnew
        rfl

/-! ## Steps -/

/-- A mark that a unit is built with, and that stays whatever the unit is used for. -/
structure Lasting [Timed υ] (mark : υ → β) : Prop where
  perform : ∀ (unit : υ) (action : α) now w (later : υ) w', mark unit = mark later →
    mark ((Craft.perform unit action now w).1.finish later w').2.1 = mark later
  turn : ∀ (unit : υ) now w, mark (Timed.turn unit now w).1 = mark unit

/-- What may befall a worker at an instant. Others who work with the unit keep its
mark. -/
inductive Step [Timed υ] (mark : υ → β) (now : Nat) (s : Worker υ π α) : Worker υ π α → Prop
  | act (d : Deed π) (w : World) : Step mark now s (s.act now w d).1
  /-- Someone works with the unit that is lent to him. -/
  | work (unit : υ) : s.isLent = true → mark unit = mark s.unit → Step mark now s { s with unit }
  /-- Someone gives up waiting for the unit. -/
  | withdraw (first c : Claim υ π) (before after : List (Claim υ π)) :
      s.claims = first :: (before ++ c :: after) → c ≠ .cycle →
        Step mark now s { s with claims := first :: (before ++ after) }

/-- A step that others take, and not the worker by itself. -/
inductive Outside [Timed υ] (mark : υ → β) (now : Nat) (s : Worker υ π α) : Worker υ π α → Prop
  | act (d : Deed π) (w : World) : d ≠ .turn → Outside mark now s (s.act now w d).1
  | work (unit : υ) : s.isLent = true → mark unit = mark s.unit → Outside mark now s { s with unit }
  | withdraw (first c : Claim υ π) (before after : List (Claim υ π)) :
      s.claims = first :: (before ++ c :: after) → c ≠ .cycle →
        Outside mark now s { s with claims := first :: (before ++ after) }

/-- The workers in use. -/
inductive InUse [Timed υ] [BEq α] (mark : υ → β) : Worker υ π α → Nat → Prop
  | made {actions : List α} {param : π} {s : Worker υ π α} {now : Nat} :
      Made actions param s now → InUse mark s now
  | later {s : Worker υ π α} {now later : Nat} : InUse mark s now → now ≤ later →
      InUse mark s later
  | step {s t : Worker υ π α} {now : Nat} : InUse mark s now → Step mark now s t → InUse mark t now

/-- One worker becomes the other one, and something holds of both and of all between. -/
inductive Goes [Timed υ] (mark : υ → β) (P : Worker υ π α → Prop) (s : Worker υ π α) (now : Nat) :
    Worker υ π α → Nat → Prop
  | refl : P s → Goes mark P s now s now
  | later {t : Worker υ π α} {reached later : Nat} : Goes mark P s now t reached →
      reached ≤ later → Goes mark P s now t later
  | step {t u : Worker υ π α} {reached : Nat} : Goes mark P s now t reached →
      Step mark reached t u → P u → Goes mark P s now u reached

/-! ## What a step is made of -/

/-- What the loop does in its turn, before the unit goes to the next one. -/
inductive Pace (now : Nat) (s : Worker υ π α) : Worker υ π α → Prop
  | wake (instant : Nat) (w : World) : s.loop = .spawned instant → Pace now s (s.wake now w)
  | leave (timer : Timer) : s.loop = .asleep timer → s.stopping = true → Pace now s s.leave
  /-- The loop wants the unit, and waits for it. -/
  | wait (timer : Timer) : s.loop = .asleep timer → s.stopping = false →
      Pace now s { s with loop := .claiming now, claims := s.claims ++ [.cycle] }
  /-- The loop wants the unit, and has it. -/
  | enter (timer : Timer) (w : World) : s.loop = .asleep timer → s.stopping = false →
      ({ s with claims := s.claims ++ [.cycle] } : Worker υ π α).hasUnit = true →
        Pace now s (({ s with loop := .claiming now, claims := s.claims ++ [.cycle] } :
          Worker υ π α).advance now s.actions now w)
  | begin (since : Nat) (w : World) : s.loop = .claiming since → s.hasUnit = true →
      Pace now s (s.advance since s.actions now w)
  | done {since : Nat} {action : α} {rest : List α} {ending : Timer}
      {course : Course υ UnitError} {w w' : World} {unit : υ} :
      s.loop = .cycling since action rest ending course →
        course.finish s.unit w = (.done, unit, w') →
          Pace now s (({ s with unit } : Worker υ π α).advance since rest now w')
  /-- An action fails, and the worker endures it. -/
  | endure {since : Nat} {action : α} {rest : List α} {ending : Timer}
      {course : Course υ UnitError} {w w' : World} {unit : υ} {e : UnitError} :
      s.loop = .cycling since action rest ending course →
        course.finish s.unit w = (.failed e, unit, w') →
          (({ s with unit } : Worker υ π α).record action e).state.isFailed = false →
            Pace now s
              ((({ s with unit } : Worker υ π α).record action e).advance since rest now w')
  | fail {since : Nat} {action : α} {rest : List α} {ending : Timer}
      {course : Course υ UnitError} {w w' : World} {unit : υ} {e : UnitError} :
      s.loop = .cycling since action rest ending course →
        course.finish s.unit w = (.failed e, unit, w') →
          (({ s with unit } : Worker υ π α).record action e).state.isFailed = true →
            Pace now s { ({ s with unit } : Worker υ π α).record action e with loop := .ended }
  | crash {since : Nat} {action : α} {rest : List α} {ending : Timer}
      {course : Course υ UnitError} {w w' : World} {unit : υ} :
      s.loop = .cycling since action rest ending course →
        course.finish s.unit w = (.crashed, unit, w') → Pace now s { s with unit, loop := .ended }

/-- The loop stays where it is, and the unit is the same; the end of the loop may be
confirmed. -/
structure Quiet (mark : υ → β) (s t : Worker υ π α) : Prop where
  loop : t.loop = s.loop ∨ s.isAlive = false ∧ t.loop = .absent
  state : t.state = s.state
  stopping : s.stopping = true → t.stopping = true
  actions : t.actions = s.actions
  param : t.param = s.param
  unit : mark t.unit = mark s.unit

/-- The unit goes to those who wait for it, or the loop is started. -/
inductive Handed (now : Nat) (s : Worker υ π α) : Worker υ π α → Prop
  | none : Handed now s s
  | start : Handed now s (s.start now)
  | serve (cs : List (Claim υ π)) : s.isCycling = false → (∀ c ∈ cs, c.IsBuilt) →
      Handed now s (serveSwaps now cs s)

/-- What every worker in use satisfies: whoever has the unit does not replace it any
more, and a loop that has not taken its first turn was started before now. -/
structure Settled (now : Nat) (s : Worker υ π α) : Prop where
  orderly : s.Orderly
  first : ∀ c ∈ s.claims.head?, c.isSwap = false
  spawned : ∀ instant, s.loop = .spawned instant → instant ≤ now

/-! ## The unit goes on -/

/-- What every fresh unit in its place keeps, and the queue does not matter to, is
kept while those replace the unit whose turn it is. -/
theorem serveSwaps_keeps {P : Worker υ π α → Prop} {now : Nat} {cs : List (Claim υ π)}
    (hbuilt : ∀ c ∈ cs, c.IsBuilt)
    (hreplace : ∀ {s} fresh param starts, P s → (Claim.swap fresh param starts).IsBuilt →
      P (s.replace fresh param starts now))
    (hclaims : ∀ {s} ds, P s → P { s with claims := ds }) {s : Worker υ π α} (h : P s) :
    P (serveSwaps now cs s) := by
  induction cs generalizing s with
  | nil => exact hclaims [] h
  | cons c cs ih =>
      obtain ⟨hc, hcs⟩ := List.forall_mem_cons.mp hbuilt
      cases c with
      | swap fresh param starts => exact ih hcs (hreplace fresh param starts h hc)
      | cycle => exact hclaims _ h
      | guest => exact hclaims _ h

omit [Craft υ π α] in
theorem serveSwaps_first (now : Nat) (cs : List (Claim υ π)) (s : Worker υ π α) :
    ∀ c ∈ (serveSwaps now cs s).claims.head?, c.isSwap = false := by
  induction cs generalizing s with
  | nil => simp [serveSwaps]
  | cons c cs ih =>
      cases c with
      | swap fresh param starts => exact ih _
      | cycle => simp [serveSwaps, Claim.isSwap]
      | guest => simp [serveSwaps, Claim.isSwap]

omit [Craft υ π α] in
theorem claim_cases {s : Worker υ π α} (hfirst : ∀ c ∈ s.claims.head?, c.isSwap = false)
    (c : Claim υ π) (now : Nat) :
    s.claims = [] ∧ s.claim c now = serveSwaps now [c] s ∨
      s.claims ≠ [] ∧ s.claim c now = { s with claims := s.claims ++ [c] } := by
  unfold claim
  cases hclaims : s.claims with
  | nil => exact .inl ⟨rfl, rfl⟩
  | cons d ds =>
      refine .inr ⟨nofun, ?_⟩
      have hd : d.isSwap = false := hfirst d (by simp [hclaims])
      cases d with
      | swap fresh param starts => cases hd
      | cycle => rfl
      | guest => rfl

omit [Craft υ π α] in
theorem isRunning_of_dead {s : Worker υ π α} (h : s.isAlive = false) : s.isRunning = false := by
  rw [isRunning, h, Bool.false_and]

/-- The loop of a worker that runs is not touched, whoever starts it or replaces its
unit; one that is gone may only be started anew. -/
structure Spared (now : Nat) (s t : Worker υ π α) : Prop where
  alive : s.isAlive = true → t.loop = s.loop ∧ t.state = s.state ∧ t.stopping = s.stopping
  dead : s.isAlive = false → t.isAlive = false ∨
    t.loop = .spawned now ∧ t.state = .running ∧ t.stopping = false
  actions : t.actions = s.actions
  stopping : t.stopping = true → s.stopping = true

omit [Craft υ π α] in
theorem Spared.refl (now : Nat) (s : Worker υ π α) : Spared now s s :=
  ⟨fun _ => ⟨rfl, rfl, rfl⟩, .inl, rfl, id⟩

omit [Craft υ π α] in
theorem spared_start (now : Nat) {s : Worker υ π α} (h : s.isAlive = true → s.state = .running) :
    Spared now s (s.start now) := by
  unfold start
  split
  case isTrue => exact .refl now s
  case isFalse hstarts =>
      refine ⟨fun halive => ?_, fun _ => .inr ⟨rfl, rfl, rfl⟩, rfl, nofun⟩
      simp [isRunning, halive, h halive, WorkerState.isFailed] at hstarts

omit [Craft υ π α] in
theorem Spared.trans {now : Nat} {s t u : Worker υ π α} (hst : Spared now s t)
    (htu : Spared now t u) : Spared now s u := by
  refine ⟨fun halive => ?_, fun hdead => ?_, htu.actions.trans hst.actions,
    fun hstopping => hst.stopping (htu.stopping hstopping)⟩
  · obtain ⟨hloop, hstate, hstopping⟩ := hst.alive halive
    have ht : t.isAlive = true := by rwa [isAlive, hloop]
    obtain ⟨hloop', hstate', hstopping'⟩ := htu.alive ht
    exact ⟨hloop'.trans hloop, hstate'.trans hstate, hstopping'.trans hstopping⟩
  · rcases hst.dead hdead with hdead | ⟨hloop, hstate, hstopping⟩
    · exact htu.dead hdead
    · have ht : t.isAlive = true := by rw [isAlive, hloop]
      obtain ⟨hloop', hstate', hstopping'⟩ := htu.alive ht
      exact .inr ⟨hloop'.trans hloop, hstate'.trans hstate, hstopping'.trans hstopping⟩

omit [Craft υ π α] in
theorem Spared.running {now : Nat} {s t : Worker υ π α} (h : Spared now s t)
    (hs : s.isAlive = true → s.state = .running) (halive : t.isAlive = true) :
    t.state = .running := by
  cases hsalive : s.isAlive with
  | true => exact (h.alive hsalive).2.1.trans (hs hsalive)
  | false =>
      rcases h.dead hsalive with hdead | ⟨_, hstate, _⟩
      · exact nomatch hdead.symm.trans halive
      · exact hstate

omit [Craft υ π α] in
theorem spared_replace (now : Nat) {s : Worker υ π α} (h : s.isAlive = true → s.state = .running)
    (fresh : υ) (param : π) (starts : Bool) : Spared now s (s.replace fresh param starts now) := by
  have hplaced : Spared now s (s.replace fresh param false now) := by
    cases halive : s.isAlive with
    | true =>
        have hrunning : s.isRunning = true := by
          rw [isRunning, halive, h halive]
          rfl
        rw [replace_of_running hrunning]
        exact ⟨fun _ => ⟨rfl, rfl, rfl⟩, fun hdead => by simp [halive] at hdead, rfl, id⟩
    | false =>
        rw [replace_of_not_running (isRunning_of_dead halive)]
        exact ⟨fun h => by simp [halive] at h, fun _ => .inl halive, rfl, id⟩
  cases starts with
  | false => exact hplaced
  | true =>
      rw [replace_starts]
      exact hplaced.trans (spared_start now (hplaced.running h))

theorem spared_serveSwaps (now : Nat) {cs : List (Claim υ π)} (hbuilt : ∀ c ∈ cs, c.IsBuilt)
    {s : Worker υ π α} (h : s.isAlive = true → s.state = .running) :
    Spared now s (serveSwaps now cs s) := by
  refine serveSwaps_keeps (P := Spared now s) hbuilt (fun fresh param starts ht _ => ?_)
    (fun _ ht => ?_) (.refl now s)
  · exact ht.trans (spared_replace now (ht.running h) fresh param starts)
  · exact ⟨ht.alive, ht.dead, ht.actions, ht.stopping⟩

theorem Handed.spared {now : Nat} {s t : Worker υ π α} (h : Handed now s t)
    (hs : s.isAlive = true → s.state = .running) : Spared now s t := by
  cases h with
  | none => exact .refl now s
  | start => exact spared_start now hs
  | serve cs hcycling hbuilt => exact spared_serveSwaps now hbuilt hs

/-! ## The turn of the loop -/

theorem advance_claims (s : Worker υ π α) (since : Nat) (rest : List α) (now : Nat) (w : World) :
    (s.advance since rest now w).claims = s.claims := by
  cases rest with
  | nil => exact sleep_claims ..
  | cons action rest => rfl

omit [Craft υ π α] in
theorem sleep_loop (s : Worker υ π α) (span now : Nat) (w : World) :
    (∃ timer, (s.sleep span now w).loop = .asleep timer) ∨ (s.sleep span now w).loop = .ended := by
  unfold sleep
  dsimp only
  split
  · exact .inr rfl
  · exact .inl ⟨_, rfl⟩

theorem advance_loop (s : Worker υ π α) (since : Nat) (rest : List α) (now : Nat) (w : World)
    (instant : Nat) : (s.advance since rest now w).loop ≠ .spawned instant := by
  intro hspawned
  cases rest with
  | nil =>
      rcases sleep_loop s (s.period - (now - since)) now w with ⟨timer, hloop⟩ | hloop
      · exact nomatch hspawned.symm.trans hloop
      · exact nomatch hspawned.symm.trans hloop
  | cons action rest => cases hspawned

theorem Orderly.built_behind {s : Worker υ π α} (h : s.Orderly) :
    ∀ c ∈ s.claims ++ [.cycle], c.IsBuilt := by
  intro c hc
  rcases List.mem_append.mp hc with hc | hc
  · exact h.built c hc
  · rw [List.mem_singleton.mp hc]
    trivial

/-- After its turn the loop keeps the unit, or gives it to the next one. -/
inductive Left (now : Nat) (t : Worker υ π α) : Worker υ π α → Prop
  | kept : Left now t t
  | released : t.isCycling = false → Left now t (t.release now)

theorem Left.handed {now : Nat} {t u : Worker υ π α} (h : Left now t u)
    (hbuilt : ∀ c ∈ t.claims, c.IsBuilt) : Handed now t u := by
  cases h with
  | kept => exact .none
  | released hcycling => exact .serve _ hcycling fun c hc => hbuilt c (List.mem_of_mem_drop hc)

theorem goOn_left (s : Worker υ π α) (since : Nat) (rest : List α) (now : Nat) (w : World) :
    Left now (s.advance since rest now w) (s.goOn since rest now w).1 := by
  cases rest with
  | nil => exact .released (isCycling_sleep ..)
  | cons action rest => exact .kept

theorem finish_left {s : Worker υ π α} {now since : Nat} {action : α} {rest : List α}
    {ending : Timer} {course : Course υ UnitError}
    (hloop : s.loop = .cycling since action rest ending course) (w : World) :
    ∃ t, Pace now s t ∧ Left now t (s.finish since action rest course now w).1 := by
  unfold finish
  rcases hfinish : course.finish s.unit w with ⟨outcome, unit, w'⟩
  cases outcome with
  | done => exact ⟨_, .done hloop hfinish, goOn_left ..⟩
  | crashed => exact ⟨_, .crash hloop hfinish, .released rfl⟩
  | failed e =>
      dsimp only
      split
      case isTrue hfailed => exact ⟨_, .fail hloop hfinish hfailed, .released rfl⟩
      case isFalse hfailed =>
          exact ⟨_, .endure hloop hfinish (eq_false_of_ne_true hfailed), goOn_left ..⟩

theorem Settled.loopTurn_left {s : Worker υ π α} {now : Nat} (h : s.Settled now)
    (hdue : s.loopDue now ≠ none) (w : World) :
    ∃ t, Pace now s t ∧ Left now t (s.loopTurn now w).1 := by
  unfold loopTurn
  split
  next instant hloop => exact ⟨_, .wake instant w hloop, .kept⟩
  next timer hloop =>
      split
      case isTrue hstopping => exact ⟨_, .leave timer hloop hstopping, .kept⟩
      case isFalse hstopping =>
          have hgoes := eq_false_of_ne_true hstopping
          let t : Worker υ π α := { s with loop := .claiming now, claims := s.claims ++ [.cycle] }
          -- Nobody who waits is served, for whoever has the unit keeps it.
          have hclaim : ({ s with loop := .claiming now } : Worker υ π α).claim .cycle now = t := by
            rcases claim_cases (s := { s with loop := .claiming now }) h.first .cycle now with
              ⟨hclaims, hserved⟩ | ⟨_, hwaits⟩
            · rw [hserved]
              simp only at hclaims
              simp only [serveSwaps, t, hclaims, List.nil_append]
            · exact hwaits
          simp only [hclaim]
          split
          case isTrue hunit => exact ⟨_, .enter timer w hloop hgoes hunit, goOn_left ..⟩
          case isFalse hunit => exact ⟨_, .wait timer hloop hgoes, .kept⟩
  next since hloop =>
      -- The loop is due only if it has the unit.
      have hunit : s.hasUnit = true := by
        by_cases hunit : s.hasUnit = true
        · exact hunit
        · simp [loopDue, hloop, hunit] at hdue
      rw [if_pos hunit]
      exact ⟨_, .begin since w hloop hunit, goOn_left ..⟩
  next since action rest ending course hloop => exact finish_left hloop w
  next hloop => simp [loopDue, hloop] at hdue
  next hloop => simp [loopDue, hloop] at hdue

theorem Pace.claims {s t : Worker υ π α} {now : Nat} (h : Pace now s t) :
    t.claims = s.claims ∨ t.claims = s.claims ++ [.cycle] := by
  cases h with
  | wake instant w hloop =>
      unfold Worker.wake
      split
      · exact .inl rfl
      · exact .inl (sleep_claims ..)
  | leave | fail | crash => exact .inl rfl
  | wait => exact .inr rfl
  | enter => exact .inr (advance_claims ..)
  | begin | done | endure => exact .inl (advance_claims ..)

/-- In its turn the loop goes on, and then the unit may go to the next one. -/
theorem Settled.loopTurn_pace {s : Worker υ π α} {now : Nat} (h : s.Settled now)
    (hdue : s.loopDue now ≠ none) (w : World) :
    ∃ t, Pace now s t ∧ Handed now t (s.loopTurn now w).1 := by
  obtain ⟨t, hpace, hleft⟩ := h.loopTurn_left hdue w
  refine ⟨t, hpace, hleft.handed fun c hc => ?_⟩
  rcases hpace.claims with hclaims | hclaims
  · exact h.orderly.built c (hclaims ▸ hc)
  · exact h.orderly.built_behind c (hclaims ▸ hc)

theorem Pace.not_spawned {s t : Worker υ π α} {now : Nat} (h : Pace now s t) (instant : Nat) :
    t.loop ≠ .spawned instant := by
  cases h with
  | wake started w hloop =>
      unfold Worker.wake
      split
      · exact nofun
      · intro hspawned
        rcases sleep_loop s s.initialDelay now w with ⟨timer, hslept⟩ | hended
        · exact nomatch hspawned.symm.trans hslept
        · exact nomatch hspawned.symm.trans hended
  | leave | wait | fail | crash => exact nofun
  | enter | begin | done | endure => exact advance_loop _ _ _ _ _ instant

theorem Pace.isAlive {s t : Worker υ π α} {now : Nat} (h : Pace now s t) : s.isAlive = true := by
  cases h with
  | wake _ _ hloop | leave _ hloop | wait _ hloop | enter _ _ hloop | begin _ _ hloop
  | done hloop | endure hloop | fail hloop | crash hloop => simp [Worker.isAlive, hloop]

variable [Timed υ]

theorem Handed.settled {now : Nat} {s t : Worker υ π α} (h : Handed now s t) (hs : s.Settled now) :
    t.Settled now := by
  have hspared := h.spared hs.orderly.running
  refine ⟨?_, ?_, fun instant hloop => ?_⟩
  · cases h with
    | none => exact hs.orderly
    | start => exact hs.orderly.start now
    | serve cs hcycling hbuilt => exact (serveSwaps_moves now hcycling hbuilt).orderly hs.orderly
  · cases h with
    | none => exact hs.first
    | start =>
        rw [start_claims]
        exact hs.first
    | serve cs hcycling hbuilt => exact serveSwaps_first now cs s
  · cases halive : s.isAlive with
    | true => exact hs.spawned instant ((hspared.alive halive).1 ▸ hloop)
    | false =>
        rcases hspared.dead halive with hdead | ⟨hspawned, _⟩
        · simp [isAlive, hloop] at hdead
        · rw [hloop] at hspawned
          cases hspawned
          exact Nat.le_refl now

theorem Pace.settled {s t : Worker υ π α} {now : Nat} (h : Pace now s t) (hs : s.Settled now) :
    t.Settled now := by
  have hstate := hs.orderly.running h.isAlive
  refine ⟨?_, ?_, fun instant hloop => (h.not_spawned instant hloop).elim⟩
  · have hbuilt := hs.orderly.built_behind
    cases h with
    | wake instant w hloop => exact (Move.wake instant w hloop).orderly hs.orderly
    | leave timer hloop hstopping => exact ⟨nofun, nofun, hs.orderly.built, nofun⟩
    | wait timer hloop hgoes => exact ⟨fun _ => hstate, nofun, hbuilt, nofun⟩
    | enter timer w hloop hgoes hunit =>
        let v : Worker υ π α := { s with loop := .claiming now, claims := s.claims ++ [.cycle] }
        exact Orderly.advance (s := v) hstate hunit hbuilt ..
    | begin since w hloop hunit => exact (Move.begin since w hloop hunit).orderly hs.orderly
    | done hloop hfinish => exact (Move.done hloop hfinish).orderly hs.orderly
    | endure hloop hfinish hendured =>
        exact (Move.endure hloop hfinish hendured).orderly hs.orderly
    | fail hloop hfinish hfailed => exact ⟨nofun, nofun, hs.orderly.built, nofun⟩
    | crash hloop hfinish => exact ⟨nofun, nofun, hs.orderly.built, nofun⟩
  · intro c hc
    rcases h.claims with hclaims | hclaims
    · exact hs.first c (hclaims ▸ hc)
    · rw [hclaims] at hc
      cases hqueue : s.claims with
      | nil =>
          rw [hqueue] at hc
          cases hc
          rfl
      | cons d ds =>
          rw [hqueue] at hc
          exact hs.first c (by rw [hqueue]; exact hc)

/-! ## Every step -/

theorem Settled.claim {mark : υ → β} {s : Worker υ π α} {now : Nat} (h : s.Settled now)
    {c : Claim υ π} (hc : c.IsBuilt) :
    ∃ t, Quiet mark s t ∧ t.Settled now ∧ Handed now t (s.claim c now) := by
  have hquiet (cs : List (Claim υ π)) : Quiet mark s { s with claims := cs } :=
    ⟨.inl rfl, rfl, id, rfl, rfl, rfl⟩
  rcases claim_cases h.first c now with ⟨hclaims, hserved⟩ | ⟨hclaims, hwaits⟩
  · have hcycling : s.isCycling = false := by
      cases hcycling : s.isCycling with
      | false => rfl
      | true =>
          have hunit := h.orderly.holding hcycling
          simp [hasUnit, hclaims] at hunit
    refine ⟨s, hquiet s.claims, h, ?_⟩
    rw [hserved]
    exact .serve [c] hcycling fun d hd => List.mem_singleton.mp hd ▸ hc
  · rw [hwaits]
    refine ⟨{ s with claims := s.claims ++ [c] }, hquiet _, ⟨?_, ?_, h.spawned⟩, .none⟩
    · have hask : Move now s { s with claims := s.claims ++ [c] } := .ask c hc
      exact hask.orderly h.orderly
    · intro d hd
      cases hqueue : s.claims with
      | nil => exact (hclaims hqueue).elim
      | cons e es =>
          rw [hqueue] at hd
          exact h.first d (by rw [hqueue]; exact hd)

theorem Step.turn_or_outside {mark : υ → β} {s t : Worker υ π α} {now : Nat}
    (h : Step mark now s t) : (∃ w, t = (s.turn now w).1) ∨ Outside mark now s t := by
  cases h with
  | work unit hlent hunit => exact .inr (.work unit hlent hunit)
  | withdraw first c before after hclaims hc =>
      exact .inr (.withdraw first c before after hclaims hc)
  | act d w =>
      cases d with
      | turn => exact .inl ⟨w, rfl⟩
      | start | stop | confirmEnd | setPeriod | reset | borrow | giveBack =>
          refine .inr (.act _ w ?_)
          intro hturn
          cases hturn

theorem Outside.step {mark : υ → β} {s t : Worker υ π α} {now : Nat} (h : Outside mark now s t) :
    Step mark now s t := by
  cases h with
  | act d w => exact .act d w
  | work unit hlent hunit => exact .work unit hlent hunit
  | withdraw first c before after hclaims hc => exact .withdraw first c before after hclaims hc

theorem Outside.parts {mark : υ → β} {s t : Worker υ π α} {now : Nat}
    (hstep : Outside mark now s t) (h : s.Settled now) :
    ∃ u, Quiet mark s u ∧ u.Settled now ∧ Handed now u t := by
  have hstays : Quiet mark s s := ⟨.inl rfl, rfl, id, rfl, rfl, rfl⟩
  have alone {v : Worker υ π α} (hquiet : Quiet mark s v) (hv : v.Settled now) :
      ∃ u, Quiet mark s u ∧ u.Settled now ∧ Handed now u v :=
    ⟨v, hquiet, hv, .none⟩
  cases hstep with
  | work unit hlent hunit =>
      refine alone ⟨.inl rfl, rfl, id, rfl, rfl, hunit⟩ ⟨?_, h.first, h.spawned⟩
      exact ⟨h.orderly.running, h.orderly.holding, h.orderly.built, h.orderly.begun⟩
  | withdraw first c before after hclaims hc =>
      refine alone ⟨.inl rfl, rfl, id, rfl, rfl, rfl⟩ ⟨?_, ?_, h.spawned⟩
      · refine ⟨h.orderly.running, fun hcycling => ?_, fun d hd => ?_, h.orderly.begun⟩
        · have hunit := h.orderly.holding hcycling
          obtain ⟨rest, hrest⟩ := claims_of_hasUnit hunit
          obtain rfl := (List.cons.inj (hclaims.symm.trans hrest)).1
          rfl
        · refine h.orderly.built d ?_
          rw [hclaims]
          simp only [List.mem_cons, List.mem_append] at hd ⊢
          rcases hd with hd | hd | hd
          · exact .inl hd
          · exact .inr (.inl hd)
          · exact .inr (.inr (.inr hd))
      · have hfirst := h.first
        rw [hclaims] at hfirst
        exact hfirst
  | act d w hd =>
      cases d with
      | turn => exact absurd rfl hd
      | start => exact ⟨s, hstays, h, .start⟩
      | stop =>
          refine alone ⟨.inl rfl, rfl, fun _ => rfl, rfl, rfl, rfl⟩ ?_
          exact ⟨(Move.stop : Move now s s.stop).orderly h.orderly, h.first, h.spawned⟩
      | setPeriod period =>
          refine alone ⟨.inl rfl, rfl, id, rfl, rfl, rfl⟩ ?_
          exact ⟨(Move.setPeriod period : Move now s _).orderly h.orderly, h.first, h.spawned⟩
      | confirmEnd =>
          refine alone ?_ ?_
          · simp only [Worker.act, Worker.confirmEnd]
            split
            case isTrue => exact hstays
            case isFalse hended =>
                exact ⟨.inr ⟨eq_false_of_ne_true hended, rfl⟩, rfl, id, rfl, rfl, rfl⟩
          · refine ⟨(Move.confirmEnd : Move now s _).orderly h.orderly, ?_, ?_⟩
            · simp only [Worker.act, confirmEnd_claims]
              exact h.first
            · simp only [Worker.act, Worker.confirmEnd]
              split
              · exact h.spawned
              · intro instant hspawned
                cases hspawned
      | reset param starts =>
          simp only [Worker.act, reset]
          rcases hbuild : Craft.build (υ := υ) (param.getD s.param) now w with ⟨fresh | fresh, w'⟩
          · exact alone hstays h
          · have hbuilt : (Claim.swap fresh (param.getD s.param) starts).IsBuilt :=
              ⟨now, w, w', hbuild⟩
            exact h.claim hbuilt
      | borrow =>
          have hbuilt : (Claim.guest : Claim υ π).IsBuilt := trivial
          exact h.claim hbuilt
      | giveBack =>
          refine ⟨s, hstays, h, ?_⟩
          simp only [Worker.act, giveBack]
          split
          case isFalse => exact .none
          case isTrue hlent =>
              refine .serve _ ?_ fun c hc => h.orderly.built c (List.mem_of_mem_drop hc)
              cases hcycling : s.isCycling with
              | false => rfl
              | true =>
                  obtain ⟨rest, hclaims⟩ := claims_of_hasUnit (h.orderly.holding hcycling)
                  simp [isLent, hclaims] at hlent

theorem Step.parts {mark : υ → β} {s t : Worker υ π α} {now : Nat} (hstep : Step mark now s t)
    (hmark : ∀ (unit : υ) now w, mark (Timed.turn unit now w).1 = mark unit)
    (h : s.Settled now) :
    ∃ u, (Quiet mark s u ∨ Pace now s u) ∧ u.Settled now ∧ Handed now u t := by
  rcases hstep.turn_or_outside with ⟨w, rfl⟩ | houtside
  · unfold turn
    split
    case isTrue hfirst =>
        obtain ⟨u, hpace, hhanded⟩ := h.loopTurn_pace (Timer.ne_none_of_isFirst hfirst) w
        exact ⟨u, .inr hpace, hpace.settled h, hhanded⟩
    case isFalse hfirst =>
        have hquiet : Quiet mark s { s with unit := (Timed.turn s.unit now w).1 } :=
          ⟨.inl rfl, rfl, id, rfl, rfl, hmark s.unit now w⟩
        have horderly := (Move.live w : Move now s _).orderly h.orderly
        exact ⟨_, .inl hquiet, ⟨horderly, h.first, h.spawned⟩, .none⟩
  · obtain ⟨u, hquiet, hu, hhanded⟩ := houtside.parts h
    exact ⟨u, .inl hquiet, hu, hhanded⟩

theorem InUse.settled [BEq α] {mark : υ → β} (hmark : ∀ (unit : υ) now w,
    mark (Timed.turn unit now w).1 = mark unit) {s : Worker υ π α} {now : Nat}
    (h : InUse mark s now) : s.Settled now := by
  induction h with
  | made hmade =>
      obtain ⟨_, hloop, _, hclaims, _⟩ := hmade.spec
      exact ⟨hmade.orderly, by simp [hclaims], by simp [hloop]⟩
  | later _ hle ih =>
      exact ⟨ih.orderly, ih.first, fun i hloop => Nat.le_trans (ih.spawned i hloop) hle⟩
  | step _ hstep ih =>
      obtain ⟨u, _, hu, hhanded⟩ := hstep.parts hmark ih
      exact hhanded.settled hu

theorem Goes.inUse [BEq α] {mark : υ → β} {s t : Worker υ π α} {now later : Nat}
    {P : Worker υ π α → Prop} (h : Goes mark P s now t later)
    (hs : InUse mark s now) : InUse mark t later := by
  induction h with
  | refl => exact hs
  | later _ hle ih => exact ih.later hle
  | step _ hstep _ ih => exact ih.step hstep

theorem Goes.holds {mark : υ → β} {s t : Worker υ π α} {now later : Nat}
    {P : Worker υ π α → Prop} (h : Goes mark P s now t later) :
    P t := by
  induction h with
  | refl hP => exact hP
  | later _ _ ih => exact ih
  | step _ _ hP => exact hP

/-! ## A clock whose action takes a minute -/

def slowTrack : Simulation.UnitTrack :=
  ⟨["Tick"], ∅, [("Tick", ⟨[⟨Duration.ofSeconds 60, .done⟩]⟩)], [], []⟩

def slowWorld : World where
  simulation := { units := Table.empty.insert "clock" slowTrack }

def slowClock : Worker SimulatedUnit SimulatedParam String :=
  (((clock.start 0).turn 0 slowWorld).1.turn 0 slowWorld).1

theorem inUse_slowClock (mark : SimulatedUnit → β) : InUse mark slowClock 0 := by
  have hnew : Worker.new "clock" clockParam ["Tick", "Chime"] (Duration.ofSeconds 1) (.given 0) 0
      slowWorld = (.ok clock, (SimulatedUnit.nextBuild slowWorld clockParam).2) := rfl
  have hmade : InUse mark clock 0 := .made (.new usualStopTimeout hnew)
  have hstarted : InUse mark (clock.start 0) 0 := hmade.step (.act .start slowWorld)
  exact (hstarted.step (.act .turn slowWorld)).step (.act .turn slowWorld)

end EdgeAgent.Worker
