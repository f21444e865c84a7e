import EdgeAgent.Monitor.Station

/-! # What stations keep

Whatever a station does, it stays the station of its monitor and follows its period.
What is in its slot does not matter to it: a fragment that is published stands over
what was there before, and everything else goes on in the same way.
-/

namespace EdgeAgent.Station

variable {μ : Type}

/-- Two stations of one monitor that follow the same period. -/
structure Alike (s s' : Station μ) : Prop where
  name : s'.name = s.name
  enabled : s'.enabled = s.enabled
  period : s'.period = s.period

theorem Alike.refl (s : Station μ) : s.Alike s := ⟨rfl, rfl, rfl⟩

theorem Alike.trans {s s' s'' : Station μ} (h : s.Alike s') (h' : s'.Alike s'') : s.Alike s'' :=
  ⟨h'.name.trans h.name, h'.enabled.trans h.enabled, h'.period.trans h.period⟩

/-- The station, if its slot held something before; what has been published since
stands over it. -/
def atop (s : Station μ) (old : Option Payload) : Station μ :=
  { s with slot := ⟨s.slot.pending.or old⟩ }

theorem start_atop (s : Station μ) (now : Nat) (old : Option Payload) :
    (s.atop old).start now = (s.start now).atop old := by
  have hrunning : (s.atop old).isRunning = s.isRunning := rfl
  have henabled : (s.atop old).enabled = s.enabled := rfl
  unfold start
  rw [hrunning, henabled]
  split <;> rfl

theorem start_alike (s : Station μ) (now : Nat) : s.Alike (s.start now) := by
  unfold start
  split <;> exact ⟨rfl, rfl, rfl⟩

theorem leave_atop (s : Station μ) (old : Option Payload) :
    (s.atop old).leave = s.leave.atop old := by
  have hvisited : (s.atop old).isVisited = s.isVisited := rfl
  unfold leave
  rw [hvisited]
  split <;> rfl

theorem leave_alike (s : Station μ) : s.Alike s.leave := by
  unfold leave
  split <;> exact ⟨rfl, rfl, rfl⟩

variable [Monitor μ]

/-! ## Passes -/

theorem report_alike (s : Station μ) : s.Alike s.report := by
  unfold report
  split <;> exact ⟨rfl, rfl, rfl⟩

theorem report_atop (s : Station μ) (old : Option Payload) :
    (s.atop old).report = s.report.atop old := by
  unfold report
  have hmonitor : (s.atop old).monitor = s.monitor := rfl
  have hfragment : (s.atop old).fragment = s.fragment := rfl
  rw [hmonitor, hfragment]
  rcases Monitor.populate s.monitor s.fragment with ⟨e, fragment⟩
  cases e <;> rfl

/-- The fragment of a pass that is over, with what the monitor knows then. There is none
if the pass has failed, or what is known cannot be written. -/
def yields? (s : Station μ) (p : Pass μ) (w : World) : Option Payload :=
  match p.course.finish s.monitor w with
  | (.done, monitor, _) =>
    match Monitor.populate monitor s.fragment with
    | (none, fragment) => some fragment
    | (some _, _) => none
  | _ => none

theorem finish_pending (s : Station μ) (p : Pass μ) (now : Nat) (w : World) :
    (s.finish p now w).1.slot.pending = (s.yields? p w).or s.slot.pending := by
  unfold finish yields?
  rcases p.course.finish s.monitor w with ⟨outcome, monitor, w'⟩
  cases outcome with
  | done =>
      dsimp only [report]
      rcases Monitor.populate monitor s.fragment with ⟨e, fragment⟩
      cases e <;> cases p.runner <;> rfl
  | failed e => cases p.runner <;> rfl
  | crashed => cases p.runner <;> rfl

theorem finish_alike (s : Station μ) (p : Pass μ) (now : Nat) (w : World) :
    s.Alike (s.finish p now w).1 := by
  unfold finish
  rcases p.course.finish s.monitor w with ⟨outcome, monitor, w'⟩
  have hreport := report_alike { s with monitor, underWay := none }
  cases outcome with
  | done => cases p.runner <;> exact ⟨hreport.name, hreport.enabled, hreport.period⟩
  | failed e => cases p.runner <;> exact ⟨rfl, rfl, rfl⟩
  | crashed => cases p.runner <;> exact ⟨rfl, rfl, rfl⟩

theorem finish_atop (s : Station μ) (p : Pass μ) (now : Nat) (w : World) (old : Option Payload) :
    (s.atop old).finish p now w = ((s.finish p now w).1.atop old, (s.finish p now w).2) := by
  have hmonitor : (s.atop old).monitor = s.monitor := rfl
  unfold finish
  rw [hmonitor]
  rcases p.course.finish s.monitor w with ⟨outcome, monitor, w'⟩
  have hreport : ({ s.atop old with monitor, underWay := none } : Station μ).report =
      ({ s with monitor, underWay := none } : Station μ).report.atop old :=
    report_atop { s with monitor, underWay := none } old
  cases outcome with
  | done =>
      dsimp only
      rw [hreport]
      cases p.runner <;> rfl
  | failed e => cases p.runner <;> rfl
  | crashed => cases p.runner <;> rfl

theorem beginNext_alike (s : Station μ) (now : Nat) (w : World) :
    s.Alike (s.beginNext now w).1 := by
  unfold beginNext
  split
  · dsimp only
    split
    · rename_i waiting _ _ _
      have h : s.Alike { s with waiting } := ⟨rfl, rfl, rfl⟩
      exact h.trans (finish_alike _ _ now _)
    · exact ⟨rfl, rfl, rfl⟩
  · exact Alike.refl s

theorem beginNext_atop (s : Station μ) (now : Nat) (w : World) (old : Option Payload) :
    (s.atop old).beginNext now w = ((s.beginNext now w).1.atop old, (s.beginNext now w).2) := by
  cases hpass : s.underWay with
  | some p => simp [beginNext, atop, hpass]
  | none =>
      cases hwaiting : s.waiting with
      | nil => simp [beginNext, atop, hpass, hwaiting]
      | cons c waiting =>
          cases c with
          | visit => simp [beginNext, atop, hpass, hwaiting]
          | pass runner requested =>
              simp only [beginNext, atop, hpass, hwaiting]
              split
              · exact finish_atop { s with waiting } _ now _ old
              · rfl

/-! ## Requests and turns -/

theorem request_alike (s : Station μ) (runner : Runner) (now : Nat) (w : World) :
    s.Alike (s.request runner now w).1 := by
  unfold request
  dsimp only
  split
  · have h : s.Alike { s with
        lastUpdate := now, waiting := s.waiting ++ [Claim.pass runner now] } := ⟨rfl, rfl, rfl⟩
    exact h.trans (beginNext_alike _ now w)
  · exact ⟨rfl, rfl, rfl⟩

theorem request_atop (s : Station μ) (runner : Runner) (now : Nat) (w : World)
    (old : Option Payload) :
    (s.atop old).request runner now w =
      ((s.request runner now w).1.atop old, (s.request runner now w).2) := by
  have hfree : (s.atop old).isFree = s.isFree := rfl
  unfold request
  rw [hfree]
  dsimp only
  split
  · exact beginNext_atop
      { s with lastUpdate := now, waiting := s.waiting ++ [Claim.pass runner now] } now w old
  · rfl

theorem loopTurn_alike (s : Station μ) (now : Nat) (w : World) : s.Alike (s.loopTurn now w).1 := by
  unfold loopTurn
  split
  · exact ⟨rfl, rfl, rfl⟩
  · split
    · exact ⟨rfl, rfl, rfl⟩
    · have h : s.Alike { s with loop := .passing } := ⟨rfl, rfl, rfl⟩
      exact h.trans (request_alike _ .loop now w)
    · exact Alike.refl s

theorem loopTurn_atop (s : Station μ) (now : Nat) (w : World) (old : Option Payload) :
    (s.atop old).loopTurn now w = ((s.loopTurn now w).1.atop old, (s.loopTurn now w).2) := by
  have hstopping : (s.atop old).stopping = s.stopping := rfl
  have hloop : (s.atop old).loop = s.loop := rfl
  unfold loopTurn
  rw [hstopping, hloop]
  split
  · rfl
  · cases s.loop with
    | asleep wake => exact request_atop { s with loop := .passing } .loop now w old
    | spawned _ | absent | passing | ended => rfl

theorem passTurn_alike (s : Station μ) (now : Nat) (w : World) : s.Alike (s.passTurn now w).1 := by
  unfold passTurn
  split
  · split
    · exact finish_alike s _ now w
    · exact Alike.refl s
  · exact beginNext_alike s now w

theorem passTurn_atop (s : Station μ) (now : Nat) (w : World) (old : Option Payload) :
    (s.atop old).passTurn now w = ((s.passTurn now w).1.atop old, (s.passTurn now w).2) := by
  have hpass : (s.atop old).underWay = s.underWay := rfl
  unfold passTurn
  rw [hpass]
  cases s.underWay with
  | none => exact beginNext_atop s now w old
  | some p =>
      dsimp only
      split
      · exact finish_atop s p now w old
      · rfl

theorem turn_alike (s : Station μ) (now : Nat) (w : World) : s.Alike (s.turn now w).1 := by
  unfold turn
  split
  · exact loopTurn_alike s now w
  · exact passTurn_alike s now w

theorem turn_atop (s : Station μ) (now : Nat) (w : World) (old : Option Payload) :
    (s.atop old).turn now w = ((s.turn now w).1.atop old, (s.turn now w).2) := by
  have hloop : (s.atop old).loopDue now = s.loopDue now := rfl
  have hpass : (s.atop old).passDue now = s.passDue now := rfl
  unfold turn
  rw [hloop, hpass]
  split
  · exact loopTurn_atop s now w old
  · exact passTurn_atop s now w old

end EdgeAgent.Station
