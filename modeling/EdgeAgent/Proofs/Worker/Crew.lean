import EdgeAgent.Proofs.Data.Table
import EdgeAgent.Worker.Crew

/-! # Workers of a crew

What the operations of a crew make of the worker of a name.
-/

namespace EdgeAgent.Crew

variable {υ π α : Type}

theorem find?_modify (c : Crew υ π α) (name : String) (f : Worker υ π α → Worker υ π α)
    (other : String) :
    (c.modify name f).workers.find? other =
      (c.workers.find? other).map fun s => if other = name then f s else s :=
  Table.find?_mapRows _ _ _

variable [Craft υ π α]

theorem add_spec [BEq α] {c c' : Crew υ π α} {name : String} {param : π} {actions : List α}
    {period : Nat} {delay : Worker.Delay} {now : Nat} {w w' : World} {b : Bool}
    (h : c.add name param actions period delay now w = (.ok b, c', w')) :
    (∀ other, other ≠ name → c'.workers.find? other = c.workers.find? other) ∧
      (c.workers.find? name = none →
        ∃ s w₁, Worker.new name param actions period delay now w = (.ok s, w₁) ∧
          c'.workers.find? name = some { s with stopTimeout := c.stopTimeout }) := by
  unfold add at h
  split at h
  · rename_i hcontains
    cases h
    refine ⟨fun _ _ => rfl, fun hnone => ?_⟩
    simp [Table.contains, hnone] at hcontains
  · rcases hnew : Worker.new (υ := υ) name param actions period delay now w with ⟨e | s, w₁⟩
    all_goals
      rw [hnew] at h
      cases h
    refine ⟨fun other hother => ?_, fun _ => ⟨s, _, rfl, ?_⟩⟩
    · rw [Table.find?_insert, if_neg (Ne.symm hother)]
    · rw [Table.find?_insert, if_pos rfl]

/-- A worker that runs is left alone; another one stays as it is or is set up anew. -/
theorem find?_healRows (now : Nat) (rows : List (String × Worker υ π α))
    (workers : Table (Worker υ π α)) (w : World) (name : String) :
    (healRows now rows workers w).2.1.find? name = workers.find? name ∨
      ∃ s s' w₁ w₂, (name, s) ∈ rows ∧ s.isRunning = false ∧
        s.reset none true now w₁ = (.ok s', w₂) ∧
        (healRows now rows workers w).2.1.find? name = some s' ∧
        (healRows now rows workers w).1 ≠ 0 := by
  induction rows generalizing workers w with
  | nil => exact .inl rfl
  | cons row rows ih =>
      obtain ⟨n, s⟩ := row
      unfold healRows
      split
      · refine (ih workers w).imp id ?_
        rintro ⟨t, t', w₁, w₂, hmem, h⟩
        exact ⟨t, t', w₁, w₂, List.mem_cons_of_mem _ hmem, h⟩
      · rename_i hstands
        rcases hreset : s.reset none true now w with ⟨e | s', w'⟩
        · dsimp only
          refine (ih workers w').imp id ?_
          rintro ⟨t, t', w₁, w₂, hmem, h⟩
          exact ⟨t, t', w₁, w₂, List.mem_cons_of_mem _ hmem, h⟩
        · dsimp only
          rcases ih (workers.insert n s') w' with hkept | ⟨t, t', w₁, w₂, hmem, ht, hr, hf, _⟩
          · rw [Table.find?_insert] at hkept
            split at hkept
            · rename_i heq
              subst heq
              exact .inr ⟨s, s', w, w', List.mem_cons_self, eq_false_of_ne_true hstands, hreset,
                hkept, Nat.succ_ne_zero _⟩
            · exact .inl hkept
          · exact .inr ⟨t, t', w₁, w₂, List.mem_cons_of_mem _ hmem, ht, hr, hf, Nat.succ_ne_zero _⟩

theorem find?_heal (c : Crew υ π α) (now : Nat) (w : World) (name : String) :
    (c.heal now w).2.1.workers.find? name = c.workers.find? name ∨
      ∃ s s' w₁ w₂, c.workers.find? name = some s ∧ s.isRunning = false ∧
        s.reset none true now w₁ = (.ok s', w₂) ∧
        (c.heal now w).2.1.workers.find? name = some s' ∧ (c.heal now w).1 ≠ 0 := by
  refine (find?_healRows now c.workers.rows c.workers w name).imp id ?_
  rintro ⟨s, s', w₁, w₂, hmem, h⟩
  exact ⟨s, s', w₁, w₂, Table.find?_eq_some_iff.mpr hmem, h⟩

theorem healRows_world {β : Type} {f : World → β}
    (hbuild : ∀ (p : π) now w, f (Craft.build (υ := υ) p now w).2 = f w) (now : Nat)
    (rows : List (String × Worker υ π α)) (workers : Table (Worker υ π α)) (w : World) :
    f (healRows now rows workers w).2.2 = f w := by
  induction rows generalizing workers w with
  | nil => rfl
  | cons row rest ih =>
      obtain ⟨name, s⟩ := row
      have hreset : f (s.reset none true now w).2 = f w := by
        have hkept := hbuild s.param now w
        unfold Worker.reset
        dsimp only [Option.getD_none]
        split <;> simp_all
      unfold healRows
      split
      · exact ih workers w
      · rcases hr : s.reset none true now w with ⟨e | s', v⟩
        all_goals
          rw [hr] at hreset
          dsimp only
          exact (ih _ _).trans hreset

variable [Timed υ]

theorem find?_turn (c : Crew υ π α) (now : Nat) (w : World) (name : String) :
    (c.turn now w).1.workers.find? name = c.workers.find? name ∨
      ∃ s, c.workers.find? name = some s ∧
        (c.turn now w).1.workers.find? name = some (s.turn now w).1 := by
  unfold turn
  split
  · exact .inl rfl
  · rename_i found _ _
    split
    · exact .inl rfl
    · rename_i s hs
      dsimp only
      rw [Table.find?_insert]
      split
      · rename_i heq
        exact .inr ⟨s, heq ▸ hs, rfl⟩
      · exact .inl rfl

end EdgeAgent.Crew
