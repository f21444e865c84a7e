import EdgeAgent.Proofs.Agenda.Look
import Mathlib.Logic.Relation

/-! # Agendas in use

An agenda is used from the instant at which it was made: time passes, it is looked
at, actions come and run, and periods are changed. Beside it stands a record of
when each action came and when it ran, and of the time that was too long to be
counted. One inversion lemma says all that a deed can do.
-/

namespace EdgeAgent.Agenda

variable {α : Type}

/-- What can be done with an agenda. The end of a cycle asks for the time to sleep. -/
inductive Deed (α : Type) where
  /-- Time passes. -/
  | pass (span : Nat)
  | look
  | next
  | sleepTime
  /-- The action that is due first is run, if it is due. -/
  | call
  | add (x : Action α)
  | edit (key : String) (period : Nat)

/-- An action came to the agenda, or ran. -/
structure Mark (α : Type) where
  /-- The action as it came, or as its run left it. -/
  action : Action α
  hasRun : Bool
  instant : Nat
  /-- The time that had not been counted by then. -/
  skipped : Nat

namespace Mark

/-- The countdown that begins here: the one that the action came with, or its period. -/
def base (m : Mark α) : Int :=
  if m.hasRun then Action.countdown m.action.period else m.action.remaining

end Mark

def ranIds (marks : List (Mark α)) : List String :=
  (marks.filter (·.hasRun)).map (·.action.id)

/-- An agenda, and the record of its use. -/
structure Usage (α : Type) where
  agenda : Agenda α
  born : Nat
  now : Nat
  /-- The last one first. -/
  marks : List (Mark α)
  /-- The time that was not counted, because it was more than the greatest countdown
  from one look to the next. -/
  skipped : Nat := 0

namespace Usage

def fresh (actions : List (Action α)) (now : Nat) : Usage α where
  agenda := Agenda.new actions now
  born := now
  now
  marks := actions.map fun x => ⟨x, false, now, 0⟩

def skipping (s : Usage α) : Nat :=
  s.skipped + (s.now - s.agenda.counted - Action.maxCountdown)

/-- The time up to now has been counted, with more to be recorded. -/
def after (s : Usage α) (agenda : Agenda α) (marks : List (Mark α)) : Usage α :=
  { s with agenda, marks := marks ++ s.marks, skipped := s.skipping }

def mark (s : Usage α) (x : Action α) (hasRun : Bool) : Mark α :=
  ⟨x, hasRun, s.now, s.skipping⟩

def later (s : Usage α) (span : Nat) : Usage α := { s with now := s.now + span }

def step (s : Usage α) : Deed α → Except Fault (Usage α)
  | .pass span => .ok (s.later span)
  | .look => do
    let a ← s.agenda.observe s.now
    return s.after a []
  | .next => do
    let (_, a) ← s.agenda.next s.now
    return s.after a []
  | .sleepTime => do
    let (_, a) ← s.agenda.sleepTime s.now
    return s.after a []
  | .call => do
    let (ran, a) ← s.agenda.callNext s.now
    return s.after a (ran.toList.map (s.mark · true))
  | .add x => do
    let a ← s.agenda.add x s.now
    return s.after a [s.mark x false]
  | .edit key period => .ok { s with agenda := (s.agenda.editPeriod key period).2 }

/-- Every action has an id of its own, and a countdown that can be counted. -/
def Admits (s : Usage α) : Deed α → Prop
  | .add x => x.id ∉ s.agenda.actions.map (·.id) ∧ x.InRange
  | _ => True

/-- What comes of a use, by a deed after the other. -/
def Leads : Usage α → Usage α → Prop :=
  Relation.ReflTransGen fun s t => ∃ d, s.Admits d ∧ s.step d = .ok t

/-- The uses of a new agenda. -/
inductive Reachable : Usage α → Prop
  | fresh (actions : List (Action α)) (now : Nat) :
      (actions.map (·.id)).Nodup → (∀ x ∈ actions, x.InRange) → Reachable (fresh actions now)
  | step {s t : Usage α} (d : Deed α) : Reachable s → s.Admits d → s.step d = .ok t → Reachable t

/-! ## What a deed does -/

/-- All that a deed can come to, with what is recorded of it. -/
inductive Turn (s : Usage α) : Deed α → List (Mark α) → Usage α → Prop
  | pass (span : Nat) : Turn s (.pass span) [] (s.later span)
  | edit (key : String) (period : Nat) :
      Turn s (.edit key period) [] { s with agenda := (s.agenda.editPeriod key period).2 }
  /-- The actions are looked at, in their order. -/
  | look (d : Deed α) : s.agenda.Countable s.now →
      Turn s d [] (s.after ⟨s.agenda.ahead s.now, s.now⟩ [])
  /-- The first one is due, and runs. -/
  | run {x : Action α} {rest : List (Action α)} : s.agenda.Countable s.now →
      s.agenda.ahead s.now = x :: rest → x.isDue = true →
      Turn s .call [s.mark x.fire true]
        (s.after ⟨x.fire :: rest, s.now⟩ [s.mark x.fire true])
  | add (x : Action α) : s.agenda.Countable s.now →
      Turn s (.add x) [s.mark x false]
        (s.after ⟨s.agenda.aged s.now ++ [x], s.now⟩ [s.mark x false])

theorem Turn.marks_eq {s t : Usage α} {d : Deed α} {new : List (Mark α)} (h : Turn s d new t) :
    t.marks = new ++ s.marks := by
  cases h <;> rfl

theorem step_call_of_due {s : Usage α} {x : Action α} {rest : List (Action α)}
    (hcount : s.agenda.Countable s.now) (hahead : s.agenda.ahead s.now = x :: rest)
    (hdue : x.isDue = true) :
    s.step .call = .ok (s.after ⟨x.fire :: rest, s.now⟩ [s.mark x.fire true]) := by
  simp only [step, callNext_of_countable hcount, hahead, hdue, if_true]
  rfl

theorem turn_of_step {s t : Usage α} {d : Deed α} (h : s.step d = .ok t) :
    ∃ new, Turn s d new t := by
  -- A deed that looks at the actions does so only where the time can be counted.
  by_cases hcount : s.agenda.Countable s.now
  · cases d with
    | pass span =>
        cases h
        exact ⟨_, .pass span⟩
    | edit key period =>
        cases h
        exact ⟨_, .edit key period⟩
    | look =>
        simp only [step, observe_of_countable hcount] at h
        cases h
        exact ⟨_, .look _ hcount⟩
    | next =>
        simp only [step, next_of_countable hcount] at h
        cases hahead : s.agenda.ahead s.now with
        | nil => simp [hahead, bind, Except.bind] at h
        | cons x rest =>
            rw [hahead] at h
            cases h
            rw [← hahead]
            exact ⟨_, .look _ hcount⟩
    | sleepTime =>
        simp only [step, sleepTime_of_countable hcount] at h
        cases hahead : s.agenda.ahead s.now with
        | nil => simp [hahead, bind, Except.bind] at h
        | cons x rest =>
            rw [hahead] at h
            cases h
            rw [← hahead]
            exact ⟨_, .look _ hcount⟩
    | call =>
        simp only [step, callNext_of_countable hcount] at h
        cases hahead : s.agenda.ahead s.now with
        | nil => simp [hahead, bind, Except.bind] at h
        | cons x rest =>
            rw [hahead] at h
            by_cases hdue : x.isDue = true
            · simp only [hdue, if_true] at h
              cases h
              exact ⟨_, .run hcount hahead hdue⟩
            · simp only [hdue] at h
              cases h
              rw [← hahead]
              exact ⟨_, .look _ hcount⟩
    | add x =>
        simp only [step, add_of_countable hcount] at h
        cases h
        exact ⟨_, .add x hcount⟩
  · have htick := tick_of_not_countable hcount
    cases d with
    | pass span =>
        cases h
        exact ⟨_, .pass span⟩
    | edit key period =>
        cases h
        exact ⟨_, .edit key period⟩
    | look => simp [step, observe, htick, bind, Except.bind] at h
    | next => simp [step, Agenda.next, observe, htick, bind, Except.bind] at h
    | sleepTime =>
        simp [step, Agenda.sleepTime, Agenda.next, observe, htick, bind, Except.bind] at h
    | call => simp [step, callNext, Agenda.next, observe, htick, bind, Except.bind] at h
    | add x => simp [step, Agenda.add, htick, bind, Except.bind] at h

/-- A deed fails for a countdown only if one leaves its range. -/
theorem step_ne_outOfRange {s : Usage α} (h : s.agenda.Countable s.now) (d : Deed α) :
    s.step d ≠ .error .outOfRange := by
  cases d with
  | pass span => simp [step]
  | edit key period => simp [step]
  | look => simp [step, observe_of_countable h, bind, Except.bind, pure, Except.pure]
  | next =>
      simp only [step, next_of_countable h]
      cases s.agenda.ahead s.now <;> simp [bind, Except.bind, pure, Except.pure]
  | sleepTime =>
      simp only [step, sleepTime_of_countable h]
      cases s.agenda.ahead s.now <;> simp [bind, Except.bind, pure, Except.pure]
  | call =>
      simp only [step, callNext_of_countable h]
      cases s.agenda.ahead s.now with
      | nil => simp [bind, Except.bind]
      | cons x rest => by_cases hdue : x.isDue <;> simp [hdue, bind, Except.bind, pure, Except.pure]
  | add x => simp [step, add_of_countable h, bind, Except.bind, pure, Except.pure]

/-! ## What every use keeps -/

theorem aged_ids (a : Agenda α) (now : Nat) :
    (a.aged now).map (·.id) = a.actions.map (·.id) := by
  simp [aged, List.map_map, Function.comp_def, Action.lessen]

theorem mem_ahead_ids (a : Agenda α) (now : Nat) {id : String} :
    id ∈ (a.ahead now).map (·.id) ↔ id ∈ a.actions.map (·.id) := by
  rw [((ahead_perm a now).map _).mem_iff, aged_ids]

theorem editPeriod_ids (a : Agenda α) (key : String) (period : Nat) :
    (a.editPeriod key period).2.actions.map (·.id) = a.actions.map (·.id) := by
  simp only [editPeriod, List.map_map]
  apply List.map_congr_left
  intro x _
  simp only [Function.comp]
  split <;> rfl

theorem editPeriod_remaining (a : Agenda α) (key : String) (period : Nat) :
    (a.editPeriod key period).2.actions.map (·.remaining) = a.actions.map (·.remaining) := by
  simp only [editPeriod, List.map_map]
  apply List.map_congr_left
  intro x _
  simp only [Function.comp]
  split <;> rfl

theorem mem_editPeriod {a : Agenda α} {key : String} {period : Nat} {y : Action α}
    (h : y ∈ (a.editPeriod key period).2.actions) :
    ∃ x ∈ a.actions, y.id = x.id ∧ y.remaining = x.remaining := by
  obtain ⟨x, hx, rfl⟩ := List.mem_map.mp h
  refine ⟨x, hx, ?_, ?_⟩ <;> split <;> rfl

/-- What holds of the actions and the clock in any use. -/
structure InUse (s : Usage α) : Prop where
  distinct : (s.agenda.actions.map (·.id)).Nodup
  inRange : ∀ x ∈ s.agenda.actions, x.InRange
  born_le : s.born ≤ s.agenda.counted
  counted_le : s.agenda.counted ≤ s.now

theorem InUse.ahead_distinct {s : Usage α} (h : InUse s) :
    ((s.agenda.ahead s.now).map (·.id)).Nodup := by
  rw [((ahead_perm s.agenda s.now).map _).nodup_iff, aged_ids]
  exact h.distinct

theorem InUse.of_turn {s t : Usage α} {d : Deed α} {new : List (Mark α)} (h : InUse s)
    (hadmits : s.Admits d) (hturn : Turn s d new t) : InUse t := by
  have hborn : s.born ≤ s.now := Nat.le_trans h.born_le h.counted_le
  cases hturn with
  | pass span =>
      have hnow : s.agenda.counted ≤ s.now + span := Nat.le_add_right_of_le h.counted_le
      exact ⟨h.distinct, h.inRange, h.born_le, hnow⟩
  | edit key period =>
      refine ⟨?_, ?_, h.born_le, h.counted_le⟩
      · rw [editPeriod_ids]
        exact h.distinct
      · intro y hy
        obtain ⟨x, hx, _, hremaining⟩ := mem_editPeriod hy
        rw [Action.InRange, hremaining]
        exact h.inRange x hx
  | look d hcount =>
      refine ⟨h.ahead_distinct, ?_, hborn, Nat.le_refl _⟩
      exact fun x hx => hcount x ((ahead_perm _ _).subset hx)
  | run hcount hahead hdue =>
      rename_i x rest
      have hdistinct := h.ahead_distinct
      rw [hahead] at hdistinct
      refine ⟨hdistinct, ?_, hborn, Nat.le_refl _⟩
      intro y hy
      rcases List.mem_cons.mp hy with rfl | hy
      · exact x.inRange_fire
      · exact hcount y ((ahead_perm _ _).subset (hahead ▸ List.mem_cons_of_mem x hy))
  | add x hcount =>
      obtain ⟨hnew, hrange⟩ := hadmits
      refine ⟨?_, ?_, hborn, Nat.le_refl _⟩
      · simp only [after, List.map_append, List.map_cons, List.map_nil, aged_ids]
        rw [List.nodup_append]
        refine ⟨h.distinct, by simp, ?_⟩
        intro id hid other hother
        rw [List.mem_singleton.mp hother]
        exact fun heq => hnew (heq ▸ hid)
      · intro y hy
        rcases List.mem_append.mp hy with hy | hy
        · exact hcount y hy
        · exact List.mem_singleton.mp hy ▸ hrange

theorem Reachable.inUse {s : Usage α} (h : Reachable s) : InUse s := by
  induction h with
  | fresh actions now hdistinct hrange =>
      exact ⟨hdistinct, hrange, Nat.le_refl _, Nat.le_refl _⟩
  | step d _ hadmits hstep ih =>
      obtain ⟨new, hturn⟩ := turn_of_step hstep
      exact ih.of_turn hadmits hturn

end Usage
end EdgeAgent.Agenda
