import EdgeAgent.Proofs.Agenda.Look

/-! # The actions of an agenda

Looking at an agenda and running what is due changes countdowns and the order of the
actions, and nothing else. Only an edit of a period does.
-/

namespace EdgeAgent

/-- An action without its countdown. -/
def Action.card {α : Type} (x : Action α) : Action α := { x with remaining := 0, runs := 0 }

namespace Agenda

variable {α : Type}

def cards (a : Agenda α) : List (Action α) := a.actions.map Action.card

theorem ahead_cards (a : Agenda α) (now : Nat) :
    ((a.ahead now).map Action.card).Perm a.cards := by
  have hperm := (a.ahead_perm now).map Action.card
  rw [aged, List.map_map] at hperm
  exact hperm

theorem next_of_not_countable {a : Agenda α} {now : Nat} (h : ¬a.Countable now) :
    a.next now = .error .outOfRange := by
  rw [next, observe, tick_of_not_countable h]
  rfl

theorem sleepTime_cards {a a' : Agenda α} {now d : Nat} (h : a.sleepTime now = .ok (d, a')) :
    a'.cards.Perm a.cards := by
  by_cases hcount : a.Countable now
  · have hperm := a.ahead_cards now
    rw [sleepTime_of_countable hcount] at h
    cases hahead : a.ahead now with
    | nil => simp [hahead] at h
    | cons x rest =>
        rw [hahead] at h hperm
        cases h
        exact hperm
  · rw [sleepTime, next_of_not_countable hcount] at h
    cases h

/-- What has run is one of the actions, and the others are as they were. -/
theorem callNext_cards {a a' : Agenda α} {now : Nat} {fired : Option (Action α)}
    (h : a.callNext now = .ok (fired, a')) :
    a'.cards.Perm a.cards ∧ ∀ x, fired = some x → x.card ∈ a.cards := by
  by_cases hcount : a.Countable now
  · have hperm := a.ahead_cards now
    rw [callNext_of_countable hcount] at h
    cases hahead : a.ahead now with
    | nil => simp [hahead] at h
    | cons x rest =>
        rw [hahead] at h hperm
        dsimp only at h
        split at h
        · cases h
          refine ⟨hperm, ?_⟩
          rintro y ⟨rfl⟩
          exact hperm.subset List.mem_cons_self
        · cases h
          exact ⟨hperm, nofun⟩
  · rw [callNext, next_of_not_countable hcount] at h
    cases h

theorem editPeriod_cards (a : Agenda α) (key : String) (period : Nat) :
    (a.editPeriod key period).2.cards =
      a.cards.map fun x => if isMeant key x then { x with period } else x := by
  simp only [cards, editPeriod, List.map_map]
  refine List.map_congr_left fun x _ => ?_
  have hmeant : isMeant key x.card = isMeant key x := rfl
  simp only [Function.comp_apply, hmeant]
  split <;> rfl

end Agenda
end EdgeAgent
