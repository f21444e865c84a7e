import EdgeAgent.Proofs.Clock.Steady
import EdgeAgent.Proofs.Monitor.Passes

/-! # The diary of a station

A diary tells when a station was asked for passes from outside, when its loop was started and
asked to end, and when the passes of the loop began and ended. It is kept from outside: the
station takes its turns when they are due, time passes in between, and others deal with the
station. While the loop is alive nobody else asks for a pass.
-/

namespace EdgeAgent.Station

variable {μ : Type}

/-! ## What is noted -/

/-- What happens to a station and its loop. -/
inductive Event where
  /-- A pass was asked for from outside. -/
  | asked (instant : Nat)
  | started (instant : Nat)
  /-- The loop took its first turn while a period was in force. -/
  | looked (instant period : Nat)
  /-- The loop began a pass, or would have if nobody else had the monitor. -/
  | begun (instant : Nat)
  /-- That pass ended while a period was in force. -/
  | ended (instant period : Nat)
  /-- The loop was asked to end. -/
  | stopped (instant : Nat)

@[simp] def Event.instant : Event → Nat
  | .asked i | .started i | .looked i _ | .begun i | .ended i _ | .stopped i => i

def Event.isStarted : Event → Bool
  | .started _ => true
  | .asked _ | .looked .. | .begun _ | .ended .. | .stopped _ => false

def Event.isBegun : Event → Bool
  | .begun _ => true
  | .asked _ | .started _ | .looked .. | .ended .. | .stopped _ => false

/-- When the pass of the loop began that has not ended yet. -/
def goingOn? : List Event → Option Nat
  | .begun since :: _ => some since
  | .stopped _ :: es => goingOn? es
  | _ => none

def isPassing (s : Station μ) : Bool :=
  match s.loop with
  | .passing => true
  | _ => false

/-- What is noted of the loop when it takes its turn. -/
def noteLoop (s : Station μ) (now : Nat) (es : List Event) : List Event :=
  if s.stopping then es
  else
    match s.loop with
    | .spawned _ => .looked now s.period :: es
    | .asleep _ => .begun now :: es
    | .absent | .passing | .ended => es

/-- A pass that was going on is over when the loop is not in it any more. -/
def noteEnd (t : Station μ) (now period : Nat) (es : List Event) : List Event :=
  if (goingOn? es).isSome && !t.isPassing then .ended now period :: es else es

structure Diary (μ : Type) where
  station : Station μ
  now : Nat
  /-- The last one first. -/
  events : List Event

/-- What others do to a station without caring about its passes. -/
inductive Aside (s : Station μ) : Station μ → Prop
  | setPeriod (period : Nat) : Aside s (s.setPeriod period)
  | askVisit : Aside s s.askVisit
  | leave : Aside s s.leave
  | handOver : Aside s s.publish.leave
  | slot (slot : Slot) : Aside s { s with slot }

namespace Diary

def started (d : Diary μ) : Diary μ :=
  { d with
    station := d.station.start d.now
    events :=
      if !d.station.enabled || d.station.isRunning then d.events
      else .started d.now :: d.events }

def stopped (d : Diary μ) : Diary μ :=
  { d with station := d.station.stop, events := .stopped d.now :: d.events }

variable [Monitor μ]

def asked (d : Diary μ) (w : World) : Diary μ :=
  { d with
    station := (d.station.request .outside d.now w).1
    events := .asked d.now :: d.events }

def turned (d : Diary μ) (w : World) : Diary μ :=
  let t := (d.station.turn d.now w).1
  let es := if d.station.loopIsFirst d.now then noteLoop d.station d.now d.events else d.events
  { d with station := t, events := noteEnd t d.now d.station.period es }

/-- The station takes its turns when they are due, and others deal with it in between. A pass
that was asked for from outside is waited for before the loop is started. -/
inductive Step (d : Diary μ) : Diary μ → Prop
  | pass (instant : Nat) : d.now ≤ instant →
      (∀ timer, d.station.due d.now = some timer → instant ≤ timer.rings) →
        Step d { d with now := instant }
  | turn (timer : Timer) (w : World) : d.station.due d.now = some timer → timer.rings ≤ d.now →
      Step d (d.turned w)
  | ask (w : World) : d.station.isRunning = false → Step d (d.asked w)
  | start : d.station.isAwaited = false → Step d d.started
  | stop : Step d d.stopped
  | aside {t : Station μ} : Aside d.station t → Step d { d with station := t }

/-- The diaries of a station that is set up at an instant. -/
inductive Reachable (made : Nat) : Diary μ → Prop
  | setUp (m : μ) (period : Nat) : Reachable made ⟨.new m period made, made, []⟩
  | step {d e : Diary μ} : Reachable made d → Step d e → Reachable made e

def untilTurn (d : Diary μ) (instant : Nat) (w : World) : Diary μ :=
  ({ d with now := instant } : Diary μ).turned w

theorem Reachable.untilTurn {d : Diary μ} {made instant : Nat} (h : Reachable made d)
    {timer : Timer} (w : World) (hdue : d.station.due d.now = some timer)
    (hrings : timer.rings = instant) (hle : d.now ≤ instant)
    (hstill : d.station.due instant = some timer) : Reachable made (d.untilTurn instant w) := by
  have hpass : Step d { d with now := instant } := by
    refine .pass instant hle fun other hother => ?_
    rw [hdue] at hother
    cases hother
    exact Nat.le_of_eq hrings.symm
  exact (h.step hpass).step (.turn timer w hstill (Nat.le_of_eq hrings))

end Diary

/-! ## Who has the monitor, and who waits for it -/

def Claim.runner? : Claim → Option Runner
  | .pass runner _ => some runner
  | .visit => none

/-- Those for whom a pass goes on or is still to come. -/
def runners (s : Station μ) : List Runner :=
  (s.underWay.map Pass.runner).toList ++ s.waiting.filterMap Claim.runner?

section

variable {s : Station μ}

theorem runners_of_pass {p : Pass μ} (hpass : s.underWay = some p) :
    s.runners = p.runner :: s.waiting.filterMap Claim.runner? := by
  simp [runners, hpass]

theorem runners_of_free (hfree : s.underWay = none) :
    s.runners = s.waiting.filterMap Claim.runner? := by
  simp [runners, hfree]

theorem underWay_of_nobody (hnobody : s.runners = []) : s.underWay = none := by
  cases hpass : s.underWay with
  | none => rfl
  | some p => simp [runners_of_pass hpass] at hnobody

theorem notMem_runners_of_awaited (h : s.isAwaited = false) : .outside ∉ s.runners := by
  simp only [isAwaited, Bool.or_eq_false_iff, List.any_eq_false] at h
  obtain ⟨hpass, hwaiting⟩ := h
  unfold runners
  intro hmem
  rcases List.mem_append.mp hmem with hmem | hmem
  · cases hp : s.underWay with
    | none => simp [hp] at hmem
    | some p => simp_all
  · obtain ⟨c, hc, hrunner⟩ := List.mem_filterMap.mp hmem
    cases c with
    | visit => cases hrunner
    | pass runner requested =>
        cases hrunner
        exact hwaiting _ hc rfl

end

/-- Whatever others do aside, the loop stays where it is, and so do those who have the monitor
or wait for it. -/
structure Spared (s t : Station μ) : Prop where
  loop : t.loop = s.loop
  stopping : t.stopping = s.stopping
  lastUpdate : t.lastUpdate = s.lastUpdate
  runners : t.runners = s.runners

theorem leave_spared (s : Station μ) : s.Spared s.leave := by
  unfold leave
  split
  case isTrue hvisited =>
      simp only [isVisited, Bool.and_eq_true, beq_iff_eq] at hvisited
      obtain ⟨waiting, hwaiting⟩ := List.head?_eq_some_iff.mp hvisited.2
      exact ⟨rfl, rfl, rfl, by simp [runners, hwaiting, List.filterMap_cons, Claim.runner?]⟩
  case isFalse => exact ⟨rfl, rfl, rfl, rfl⟩

theorem Aside.spared {s t : Station μ} (h : Aside s t) : s.Spared t := by
  cases h with
  | setPeriod | slot => exact ⟨rfl, rfl, rfl, rfl⟩
  | askVisit => exact ⟨rfl, rfl, rfl, by simp [runners, Station.askVisit, Claim.runner?]⟩
  | leave => exact s.leave_spared
  | handOver =>
      have hleft := s.publish.leave_spared
      exact ⟨hleft.loop, hleft.stopping, hleft.lastUpdate, hleft.runners⟩

theorem begin_spared {s : Station μ} {p : Pass μ} {waiting : List Claim} (hfree : s.underWay = none)
    (hwaiting : s.waiting = .pass p.runner p.requested :: waiting) :
    s.Spared { s with waiting, underWay := some p } := by
  refine ⟨rfl, rfl, rfl, ?_⟩
  rw [runners_of_free hfree, hwaiting]
  simp [runners, Claim.runner?]

/-! ## Whose turn it is -/

section

variable {s t : Station μ} {now : Nat}

theorem loop_of_isPassing (h : s.isPassing = true) : s.loop = .passing := by
  unfold Station.isPassing at h
  cases hloop : s.loop with
  | passing => rfl
  | absent | spawned | asleep | ended => simp [hloop] at h

theorem loop_of_dead (h : s.isRunning = false) : s.loop = .absent ∨ s.loop = .ended := by
  unfold isRunning at h
  cases hloop : s.loop with
  | absent => exact .inl rfl
  | ended => exact .inr rfl
  | spawned | asleep | passing => simp [hloop] at h

theorem exists_due {wake : Timer} (hwake : s.loopDue now = some wake) :
    ∃ timer, s.due now = some timer ∧ timer.rings ≤ wake.rings := by
  unfold due
  rw [hwake]
  cases s.passDue now with
  | none => exact ⟨wake, rfl, Nat.le_refl _⟩
  | some other =>
      rw [Timer.sooner_some]
      exact ⟨_, rfl, (Timer.rings_first wake other).1⟩

theorem due_of_first (hfirst : s.loopIsFirst now = true) : s.due now = s.loopDue now :=
  if_pos hfirst

variable [Monitor μ] {w w' : World}

theorem Served.eq_of_nobody {v : Option (Verdict μ)} (h : Served now s w v t w')
    (hnobody : s.runners = []) : t = s := by
  cases h with
  | nobody => rfl
  | begin hfree hwaiting => simp [runners_of_free hfree, hwaiting, Claim.runner?] at hnobody
  | finish hpass => simp [runners_of_pass hpass] at hnobody
  | whole hfree hwaiting => simp [runners_of_free hfree, hwaiting, Claim.runner?] at hnobody

theorem request_waiting (runner : Runner) (w : World) (hfree : s.underWay = none)
    (hnobody : s.waiting = []) : (s.request runner now w).1.waiting = [] := by
  have hisFree : s.isFree = true := by simp [isFree, hfree, hnobody]
  unfold request beginNext
  simp only [hisFree, if_true, hfree, hnobody, List.nil_append]
  split
  · obtain ⟨v, hends⟩ := finish_ends (_ : Station μ) _ now _
    exact hends.freed.waiting
  · rfl

end

end EdgeAgent.Station
