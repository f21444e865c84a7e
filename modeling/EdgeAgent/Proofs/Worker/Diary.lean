import EdgeAgent.Proofs.Worker.Stopping

/-! # The diary of a worker

A diary tells when the loop of a worker was started, and when its cycles began and ended.
It is kept from outside: the worker takes its turns when they are due, time passes in
between, and others deal with the worker as they like. A loop that is there stays where it
is until it takes its own turn.
-/

namespace EdgeAgent.Worker

variable {υ π α β : Type}

/-! ## Diaries -/

/-- What the loop of a worker does. -/
inductive Event where
  | started (instant : Nat)
  | begun (instant : Nat)
  /-- A cycle ended while a period was in force. -/
  | ended (instant period : Nat)

namespace Event

@[simp] def instant : Event → Nat
  | .started i | .begun i | .ended i _ => i

@[simp] def isBegun : Event → Bool
  | .begun _ => true
  | .started _ | .ended .. => false

end Event

def isSpawned (s : Worker υ π α) : Bool :=
  match s.loop with
  | .spawned _ => true
  | _ => false

def wakesUp (s : Worker υ π α) : Bool :=
  match s.loop with
  | .asleep _ => !s.stopping
  | _ => false

def noteStart (before : Bool) (t : Worker υ π α) (now : Nat) (es : List Event) : List Event :=
  if t.isSpawned && !before then .started now :: es else es

/-- What is noted of the cycles when the loop takes its turn. A cycle begins when the loop
wakes, though the unit may come to it later, and ends when it does not want the unit any
more. -/
def noteCycle (s t : Worker υ π α) (now : Nat) (es : List Event) : List Event :=
  let es := if s.wakesUp then .begun now :: es else es
  if (s.wakesUp || s.wantsUnit) && !t.wantsUnit then .ended now s.period :: es else es

structure Diary (υ π α : Type) where
  worker : Worker υ π α
  now : Nat
  /-- The last one first. -/
  events : List Event

namespace Diary

variable [Craft υ π α]

def met (d : Diary υ π α) (t : Worker υ π α) : Diary υ π α :=
  { d with worker := t, events := noteStart d.worker.isSpawned t d.now d.events }

variable [Timed υ]

def loopIsFirst (d : Diary υ π α) : Bool :=
  Timer.isFirst (d.worker.loopDue d.now) (Timed.due d.worker.unit d.now)

def turned (d : Diary υ π α) (w : World) : Diary υ π α :=
  let t := (d.worker.turn d.now w).1
  if d.loopIsFirst then
    { d with
      worker := t
      events := noteStart false t d.now (noteCycle d.worker t d.now d.events) }
  else { d with worker := t }

/-- A worker takes its turns when they are due. In between time passes, and others deal
with the worker. -/
inductive Step (d : Diary υ π α) : Diary υ π α → Prop
  | pass (instant : Nat) : d.now ≤ instant →
      (∀ timer, d.worker.due d.now = some timer → instant ≤ timer.rings) →
        Step d { d with now := instant }
  | turn (timer : Timer) (w : World) : d.worker.due d.now = some timer → timer.rings ≤ d.now →
      Step d (d.turned w)
  | outside {t : Worker υ π α} : Outside unmarked d.now d.worker t → Step d (d.met t)

/-- The diaries of workers that are made with a period. -/
inductive Reachable [BEq α] (period : Nat) : Diary υ π α → Prop
  | made {name : String} {param : π} {actions : List α} {delay : Delay} {now : Nat}
      {w w' : World} {s : Worker υ π α} (stopTimeout : Nat) :
      Worker.new name param actions period delay now w = (.ok s, w') →
        Reachable period ⟨{ s with stopTimeout }, now, []⟩
  | step {d e : Diary υ π α} : Reachable period d → Step d e → Reachable period e

end Diary

/-! ## What the loop goes by -/

theorem start_frame (s : Worker υ π α) (now : Nat) :
    (s.start now).nextCycle = s.nextCycle ∧ (s.start now).initialDelay = s.initialDelay := by
  unfold start
  split <;> exact ⟨rfl, rfl⟩

theorem replace_frame (s : Worker υ π α) (fresh : υ) (param : π) (starts : Bool) (now : Nat) :
    (s.replace fresh param starts now).nextCycle = s.nextCycle ∧
      (s.replace fresh param starts now).initialDelay = s.initialDelay := by
  unfold replace
  dsimp only
  split
  · exact ⟨rfl, rfl⟩
  · split
    · exact start_frame _ now
    · exact ⟨rfl, rfl⟩

theorem serveSwaps_frame (now : Nat) (cs : List (Claim υ π)) (s : Worker υ π α) :
    (serveSwaps now cs s).nextCycle = s.nextCycle ∧
      (serveSwaps now cs s).initialDelay = s.initialDelay := by
  induction cs generalizing s with
  | nil => exact ⟨rfl, rfl⟩
  | cons c cs ih =>
      cases c with
      | swap fresh param starts =>
          obtain ⟨hnext, hdelay⟩ := ih (s.replace fresh param starts now)
          obtain ⟨hnext', hdelay'⟩ := replace_frame s fresh param starts now
          exact ⟨hnext.trans hnext', hdelay.trans hdelay'⟩
      | cycle => exact ⟨rfl, rfl⟩
      | guest => exact ⟨rfl, rfl⟩

theorem sleep_initialDelay (s : Worker υ π α) (span now : Nat) (w : World) :
    (s.sleep span now w).initialDelay = s.initialDelay := by
  unfold sleep
  dsimp only
  split <;> rfl

theorem sleep_wantsUnit (s : Worker υ π α) (span now : Nat) (w : World) :
    (s.sleep span now w).wantsUnit = false := by
  unfold sleep
  dsimp only
  split <;> rfl

section

variable [Craft υ π α]

theorem advance_initialDelay (s : Worker υ π α) (since : Nat) (rest : List α) (now : Nat)
    (w : World) : (s.advance since rest now w).initialDelay = s.initialDelay := by
  cases rest with
  | nil => exact sleep_initialDelay ..
  | cons action rest => rfl

theorem Pace.initialDelay {now : Nat} {s t : Worker υ π α} (h : Pace now s t) :
    t.initialDelay = s.initialDelay := by
  cases h with
  | wake instant w hloop =>
      unfold Worker.wake
      split
      · rfl
      · exact sleep_initialDelay ..
  | leave | wait | fail | crash => rfl
  | enter | begin | done | endure => exact advance_initialDelay ..

theorem new_initialDelay [BEq α] {name : String} {param : π} {actions : List α} {period : Nat}
    {delay : Delay} {now : Nat} {w w' : World} {s : Worker υ π α}
    (h : Worker.new name param actions period delay now w = (.ok s, w')) :
    s.initialDelay = min delay.span period := by
  unfold Worker.new at h
  split at h
  · cases h
  · rcases hbuild : Craft.build (υ := υ) param now w with ⟨unit | unit, w''⟩
    all_goals rw [hbuild] at h; cases h
    rfl

theorem Handed.frame {now : Nat} {s t : Worker υ π α} (h : Handed now s t) :
    t.nextCycle = s.nextCycle ∧ t.initialDelay = s.initialDelay := by
  cases h with
  | none => exact ⟨rfl, rfl⟩
  | start => exact start_frame s now
  | serve cs => exact serveSwaps_frame now cs s

theorem Outside.frame [Timed υ] {mark : υ → β} {now : Nat} {s t : Worker υ π α}
    (h : Outside mark now s t) :
    t.nextCycle = s.nextCycle ∧ t.initialDelay = s.initialDelay := by
  cases h with
  | work | withdraw => exact ⟨rfl, rfl⟩
  | act d w hd =>
      cases d with
      | turn => exact absurd rfl hd
      | start => exact start_frame s now
      | stop | setPeriod => exact ⟨rfl, rfl⟩
      | confirmEnd =>
          simp only [Worker.act, confirmEnd]
          split <;> exact ⟨rfl, rfl⟩
      | reset param starts =>
          simp only [Worker.act, reset]
          rcases Craft.build (υ := υ) (param.getD s.param) now w with ⟨fresh | fresh, w'⟩
          · exact ⟨rfl, rfl⟩
          · exact serveSwaps_frame ..
      | borrow => exact serveSwaps_frame ..
      | giveBack =>
          simp only [Worker.act, giveBack]
          split
          · exact serveSwaps_frame ..
          · exact ⟨rfl, rfl⟩

end

/-! ## Turns -/

theorem suffix_noteStart (before : Bool) (t : Worker υ π α) (now : Nat) (es : List Event) :
    es <:+ noteStart before t now es := by
  unfold noteStart
  split
  · exact List.suffix_cons ..
  · exact List.suffix_refl _

section

variable [Craft υ π α] {now : Nat} {s t : Worker υ π α}

/-- After its turn the unit may go to others, who do not touch a loop that is there. -/
theorem Handed.wantsUnit (h : Handed now s t) (hrunning : s.isAlive = true → s.state = .running) :
    t.wantsUnit = s.wantsUnit := by
  have hspared := h.spared hrunning
  cases halive : s.isAlive with
  | true => exact wantsUnit_of_loop (hspared.alive halive).1
  | false =>
      rw [wantsUnit_of_not_isAlive halive]
      cases hwants : t.wantsUnit with
      | false => rfl
      | true =>
          have hs := (hspared.wantsUnit hwants).1
          rw [wantsUnit_of_not_isAlive halive] at hs
          cases hs

variable [Timed υ]

omit [Craft υ π α] in
theorem exists_due {wake : Timer} (hwake : s.loopDue now = some wake) :
    ∃ timer, s.due now = some timer ∧ timer.rings ≤ wake.rings := by
  unfold due
  rw [hwake]
  cases Timed.due s.unit now with
  | none => exact ⟨wake, rfl, Nat.le_refl _⟩
  | some other =>
      rw [Timer.sooner_some]
      exact ⟨_, rfl, (Timer.rings_first wake other).1⟩

end

namespace Diary

variable [Craft υ π α] [Timed υ] {d e : Diary υ π α} {period : Nat}

theorem turn_of_first (hfirst : d.loopIsFirst = true) (w : World) :
    (d.worker.turn d.now w).1 = (d.worker.loopTurn d.now w).1 := by
  have hturn : Timer.isFirst (d.worker.loopDue d.now) (Timed.due d.worker.unit d.now) = true :=
    hfirst
  rw [Worker.turn, if_pos hturn]

omit [Craft υ π α] in
theorem due_of_first (hfirst : d.loopIsFirst = true) :
    d.worker.due d.now = d.worker.loopDue d.now := if_pos hfirst

theorem turned_of_first (hsettled : d.worker.Settled d.now) (hfirst : d.loopIsFirst = true)
    (w : World) :
    ∃ u, Pace d.now d.worker u ∧ Handed d.now u (d.turned w).worker ∧ u.Settled d.now ∧
      (d.turned w).events = noteStart u.isSpawned (d.turned w).worker d.now
        (noteCycle d.worker u d.now d.events) := by
  have hdue : d.worker.loopDue d.now ≠ none := Timer.ne_none_of_isFirst hfirst
  obtain ⟨u, hpace, hhanded⟩ := hsettled.loopTurn_pace hdue w
  have hu := hpace.settled hsettled
  have hbefore : u.isSpawned = false := by
    cases hloop : u.loop with
    | spawned instant => exact absurd hloop (hpace.not_spawned instant)
    | absent | asleep | claiming | cycling | ended => simp [isSpawned, hloop]
  rw [← turn_of_first hfirst w] at hhanded
  have hwants := hhanded.wantsUnit hu.orderly.running
  simp only [turned, hfirst, if_true]
  refine ⟨u, hpace, hhanded, hu, ?_⟩
  rw [hbefore]
  simp only [noteCycle, hwants]

theorem turned_of_spawned {instant : Nat} (hfirst : d.loopIsFirst = true)
    (hloop : d.worker.loop = .spawned instant) (hgoes : d.worker.stopping = false)
    (htold : d.now + d.worker.initialDelay < Instant.endOfTime) (w : World) :
    (d.turned w).events = d.events ∧ ∃ wake, (d.turned w).worker.loop = .asleep wake := by
  have hturn : (d.worker.turn d.now w).1 = d.worker.sleep d.worker.initialDelay d.now w := by
    have hearly : ¬endOfTime ≤ d.now + d.worker.initialDelay := Nat.not_le.mpr htold
    rw [turn_of_first hfirst w]
    simp only [loopTurn, hloop, Worker.wake, if_neg hearly]
  have hasleep : (d.worker.sleep d.worker.initialDelay d.now w).loop =
      .asleep (.after d.now d.worker.initialDelay w.rank) := by
    simp [sleep, hgoes]
  simp only [turned, hfirst, if_true, hturn]
  refine ⟨?_, _, hasleep⟩
  simp [noteStart, noteCycle, isSpawned, wakesUp, wantsUnit, hloop, hasleep]

theorem turned_of_not_first (hfirst : d.loopIsFirst = false) (w : World) :
    d.turned w =
      { d with worker := { d.worker with unit := (Timed.turn d.worker.unit d.now w).1 } } := by
  have hturn : Timer.isFirst (d.worker.loopDue d.now) (Timed.due d.worker.unit d.now) = false :=
    hfirst
  simp [turned, Worker.turn, hfirst, hturn]

theorem Step.worker_step (hstep : Step d e) :
    e.worker = d.worker ∧ d.now ≤ e.now ∨
      Worker.Step unmarked d.now d.worker e.worker ∧ e.now = d.now := by
  cases hstep with
  | pass instant hle => exact .inl ⟨rfl, hle⟩
  | outside houtside => exact .inr ⟨houtside.step, rfl⟩
  | turn timer w =>
      have hworker : (d.turned w).worker = (d.worker.act d.now w .turn).1 := by
        unfold turned
        split <;> rfl
      have hnow : (d.turned w).now = d.now := by
        unfold turned
        split <;> rfl
      rw [hworker]
      exact .inr ⟨.act .turn w, hnow⟩

theorem Step.initialDelay (hstep : Step d e) (hsettled : d.worker.Settled d.now) :
    e.worker.initialDelay = d.worker.initialDelay := by
  cases hstep with
  | pass => rfl
  | outside houtside => exact houtside.frame.2
  | turn timer w =>
      cases hfirst : d.loopIsFirst with
      | false => rw [turned_of_not_first hfirst w]
      | true =>
          obtain ⟨u, hpace, hhanded, _⟩ := turned_of_first hsettled hfirst w
          exact hhanded.frame.2.trans hpace.initialDelay

theorem Step.rests_or_turns (hstep : Step d e) (hsettled : d.worker.Settled d.now)
    (halive : d.worker.isAlive = true) :
    e.worker.loop = d.worker.loop ∧ e.events = d.events ∨
      ∃ w, e = d.turned w ∧ d.loopIsFirst = true ∧
        ∀ wake, d.worker.loopDue d.now = some wake → wake.rings ≤ d.now := by
  cases hstep with
  | pass => exact .inl ⟨rfl, rfl⟩
  | @outside t houtside =>
      obtain ⟨u, hquiet, hu, hhanded⟩ := houtside.parts hsettled
      have hspared := hhanded.spared hu.orderly.running
      have hloop : t.loop = d.worker.loop := by
        rcases hquiet.loop with hloop | ⟨hdead, _⟩
        · have hu : u.isAlive = true := by rwa [isAlive, hloop]
          exact (hspared.alive hu).1.trans hloop
        · rw [halive] at hdead
          cases hdead
      refine .inl ⟨hloop, ?_⟩
      simp [met, noteStart, isSpawned, hloop]
  | turn timer w hdue hrings =>
      cases hfirst : d.loopIsFirst with
      | false =>
          rw [turned_of_not_first hfirst w]
          exact .inl ⟨rfl, rfl⟩
      | true =>
          refine .inr ⟨w, rfl, rfl, fun wake hwake => ?_⟩
          rw [due_of_first hfirst, hwake] at hdue
          cases hdue
          exact hrings

/-! ## Runs -/

variable [BEq α]

theorem Reachable.inUse (h : Reachable period d) : InUse unmarked d.worker d.now := by
  induction h with
  | made stopTimeout hnew => exact .made (.new stopTimeout hnew)
  | step _ hstep ih =>
      rcases hstep.worker_step with ⟨hsame, hle⟩ | ⟨hworker, hnow⟩
      · rw [hsame]
        exact ih.later hle
      · rw [hnow]
        exact ih.step hworker

theorem Reachable.settled (h : Reachable period d) : d.worker.Settled d.now :=
  h.inUse.settled fun _ _ _ => rfl

theorem Reachable.delay_le (h : Reachable period d) : d.worker.initialDelay ≤ period := by
  induction h with
  | made stopTimeout hnew =>
      have hdelay := new_initialDelay hnew
      dsimp only
      omega
  | step hbefore hstep ih =>
      rw [hstep.initialDelay hbefore.settled]
      exact ih

theorem Reachable.start (h : Reachable period d) (w : World) :
    Reachable period (d.met (d.worker.start d.now)) := by
  have houtside : Outside unmarked d.now d.worker (d.worker.act d.now w .start).1 :=
    .act .start w (by intro hturn; cases hturn)
  exact h.step (.outside houtside)

theorem Reachable.setPeriod (h : Reachable period d) (w : World) (later : Nat) :
    Reachable period (d.met (d.worker.setPeriod later)) := by
  have houtside : Outside unmarked d.now d.worker (d.worker.act d.now w (.setPeriod later)).1 :=
    .act (.setPeriod later) w (by intro hturn; cases hturn)
  exact h.step (.outside houtside)

def untilTurn (d : Diary υ π α) (instant : Nat) (w : World) : Diary υ π α :=
  ({ d with now := instant } : Diary υ π α).turned w

theorem Reachable.untilTurn (h : Reachable period d) {timer : Timer} (w : World)
    (hdue : d.worker.due d.now = some timer) (hle : d.now ≤ timer.rings)
    (hstill : d.worker.due timer.rings = some timer) :
    Reachable period (d.untilTurn timer.rings w) := by
  have hpass : Step d { d with now := timer.rings } := by
    refine .pass timer.rings hle fun other hother => ?_
    rw [hdue] at hother
    cases hother
    exact Nat.le_refl _
  exact (h.step hpass).step (.turn timer w hstill (Nat.le_refl _))

end Diary
end EdgeAgent.Worker
