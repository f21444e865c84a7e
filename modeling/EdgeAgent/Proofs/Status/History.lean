import EdgeAgent.Proofs.Status.Board
import Mathlib.Data.List.Induction

/-! # What a board shows after any history

Direct calls take effect at once. A report that was posted waits, if it finds room,
and takes effect with the next update, which then prunes. So a history has one line
of effects, and a module's report is held as long as nothing later in that line
replaces, forgets or prunes it. State and notes follow from the reports held.
-/

namespace EdgeAgent

namespace ModuleStatus

abbrev InTrouble (m : ModuleStatus) : Prop := m = .failing ∨ m = .failed

/-- The module works, or has reason not to. -/
abbrev InOrder (m : ModuleStatus) : Prop := m = .starting ∨ m = .running ∨ m = .stopped

end ModuleStatus

namespace Board

/-! ## Histories and their effects -/

/-- What can be asked of a board. -/
inductive Event where
  | post (r : Report)
  | hold (r : Report)
  | forget (origin : String)
  | update (now : Timestamp)

def step (b : Board) : Event → Board
  | .post r => b.post r
  | .hold r => b.hold r
  | .forget origin => b.forget origin
  | .update now => b.update now

def run (b : Board) (es : List Event) : Board := es.foldl step b

/-- What can happen to the reports held. -/
inductive Effect where
  | hold (r : Report)
  | forget (origin : String)
  | prune (now : Timestamp)

namespace Effect

def apply (held : Table Report) : Effect → Table Report
  | .hold r => held.insert r.origin r
  | .forget origin => held.erase origin
  | .prune now => held.filter fun _ r => isFresh now r

/-- The effect leaves a report that is held where it is. -/
def Spares (r : Report) : Effect → Prop
  | .hold s => s.origin ≠ r.origin
  | .forget origin => origin ≠ r.origin
  | .prune now => now.total - r.date.total ≤ (lifetime : Int)

end Effect

/-- The effects of a history, in the order in which they take place. Of the reports
posted since the last update, as many as can wait are held at the next one. -/
def effects (posted : List Report) : List Event → List Effect
  | [] => []
  | .post r :: es => effects (posted ++ [r]) es
  | .hold r :: es => .hold r :: effects posted es
  | .forget origin :: es => .forget origin :: effects posted es
  | .update now :: es => (posted.take capacity).map .hold ++ .prune now :: effects [] es

/-- A report took effect, and nothing later affects it. -/
def LastWord (line : List Effect) (r : Report) : Prop :=
  ∃ before after, line = before ++ .hold r :: after ∧ ∀ e ∈ after, e.Spares r

/-! ## The reports held -/

theorem find?_apply (held : Table Report) (e : Effect) (r : Report) :
    (e.apply held).find? r.origin = some r ↔
      e = .hold r ∨ e.Spares r ∧ held.find? r.origin = some r := by
  cases e with
  | hold s =>
      rw [Effect.apply, Table.find?_insert]
      by_cases hs : s.origin = r.origin
      · simp [Effect.Spares, hs]
      · have hne : s ≠ r := fun h => hs (congrArg Report.origin h)
        simp [Effect.Spares, hs, hne]
  | forget origin =>
      rw [Effect.apply, Table.find?_erase]
      by_cases ho : origin = r.origin <;> simp [Effect.Spares, ho]
  | prune now =>
      rw [Effect.apply, Table.find?_filter, Option.filter_eq_some_iff]
      simp [Effect.Spares, isFresh, and_comm]

def Named (held : Table Report) : Prop := ∀ name r, held.find? name = some r → r.origin = name

theorem Named.apply {held : Table Report} (h : Named held) (e : Effect) : Named (e.apply held) := by
  intro name r hr
  cases e with
  | hold s =>
      rw [Effect.apply, Table.find?_insert] at hr
      split at hr
      · rename_i hs
        exact Option.some.inj hr ▸ hs
      · exact h name r hr
  | forget origin =>
      rw [Effect.apply, Table.find?_erase] at hr
      split at hr
      · cases hr
      · exact h name r hr
  | prune now =>
      rw [Effect.apply, Table.find?_filter, Option.filter_eq_some_iff] at hr
      exact h name r hr.1

theorem Named.foldl_apply {held : Table Report} (h : Named held) (line : List Effect) :
    Named (line.foldl Effect.apply held) := by
  induction line generalizing held with
  | nil => exact h
  | cons e line ih => exact ih (h.apply e)

theorem lastWord_concat {line : List Effect} {e : Effect} {r : Report} :
    LastWord (line ++ [e]) r ↔ e = .hold r ∨ e.Spares r ∧ LastWord line r := by
  constructor
  · rintro ⟨before, after, hline, hspares⟩
    rcases List.eq_nil_or_concat after with rfl | ⟨after, last, rfl⟩
    · exact .inl (List.cons.inj (List.append_inj' hline rfl).2).1
    · have hassoc : before ++ .hold r :: after.concat last =
          (before ++ .hold r :: after) ++ [last] := by simp
      obtain ⟨hbefore, hlast⟩ := List.append_inj' (hline.trans hassoc) rfl
      obtain rfl := (List.cons.inj hlast).1
      refine .inr ⟨hspares e (by simp), before, after, hbefore, ?_⟩
      intro f hf
      exact hspares f (by simp [hf])
  · rintro (rfl | ⟨he, before, after, rfl, hspares⟩)
    · exact ⟨line, [], rfl, by simp⟩
    · refine ⟨before, after ++ [e], by simp, ?_⟩
      intro f hf
      rcases List.mem_append.mp hf with hf | hf
      · exact hspares f hf
      · exact List.mem_singleton.mp hf ▸ he

theorem find?_foldl_apply (line : List Effect) (r : Report) :
    (line.foldl Effect.apply Table.empty).find? r.origin = some r ↔ LastWord line r := by
  induction line using List.reverseRecOn with
  | nil =>
      constructor
      · intro h
        cases h
      · rintro ⟨before, after, h, -⟩
        cases before <;> cases h
  | append_singleton line e ih =>
      rw [List.foldl_append, List.foldl_cons, List.foldl_nil, find?_apply, lastWord_concat, ih]

theorem waiting_post {b : Board} {posted : List Report} (h : b.waiting = posted.take capacity)
    (r : Report) : (b.post r).waiting = (posted ++ [r]).take capacity := by
  by_cases hroom : posted.length < capacity
  · have hall : b.waiting = posted := h.trans (List.take_of_length_le (Nat.le_of_lt hroom))
    have hlength : (posted ++ [r]).length ≤ capacity := by
      rw [List.length_append]
      exact hroom
    rw [post, if_pos (hall ▸ hroom), hall, List.take_of_length_le hlength]
  · have hfull : capacity ≤ posted.length := Nat.not_lt.mp hroom
    have hlength : b.waiting.length = capacity := by
      rw [h, List.length_take, Nat.min_eq_left hfull]
    rw [post_of_full (Nat.le_of_eq hlength.symm), h, List.take_append_of_le_length hfull]

theorem held_update (b : Board) (now : Timestamp) :
    (b.update now).held =
      (b.waiting.map Effect.hold ++ [Effect.prune now]).foldl Effect.apply b.held := by
  rw [List.foldl_append, List.foldl_map]
  rfl

theorem held_run (es : List Event) {b : Board} {posted : List Report}
    (h : b.waiting = posted.take capacity) :
    (b.run es).held = (effects posted es).foldl Effect.apply b.held := by
  -- What waits is the part of `posted` that found room, and no effect yet.
  induction es generalizing b posted with
  | nil => rfl
  | cons e es ih =>
      have hcons : b.run (e :: es) = (b.step e).run es := rfl
      rw [hcons]
      cases e with
      | post r =>
          have hheld : (b.post r).held = b.held := by
            rw [post]
            split <;> rfl
          rw [effects, ← hheld]
          exact ih (waiting_post h r)
      | hold r => exact ih h
      | forget origin => exact ih h
      | update now =>
          have hrest : ((b.update now).run es).held =
              (effects [] es).foldl Effect.apply (b.update now).held := ih rfl
          have hline : (posted.take capacity).map Effect.hold ++ .prune now :: effects [] es =
              (b.waiting.map Effect.hold ++ [.prune now]) ++ effects [] es := by
            rw [h, List.append_assoc]
            rfl
          rw [step, effects, hline, List.foldl_append, ← held_update]
          exact hrest

/-! ## The state of the edge -/

theorem foldl_addStatus (statuses : List ModuleStatus) (s : EdgeState) :
    statuses.foldl addStatus s =
      if s = .degraded ∨ ∃ m ∈ statuses, m.InTrouble then .degraded
      else if ∃ m ∈ statuses, m.InOrder then .operational else s := by
  induction statuses generalizing s with
  | nil => cases s <;> simp
  | cons m rest ih =>
      rw [List.foldl_cons, ih]
      cases m <;> cases s <;> simp [addStatus, ModuleStatus.InTrouble, ModuleStatus.InOrder]

/-- The state depends on which statuses there are, not on their order. -/
theorem foldState_eq (statuses : List ModuleStatus) :
    foldState statuses =
      if ∃ m ∈ statuses, m.InTrouble then .degraded
      else if ∃ m ∈ statuses, m.InOrder then .operational else .unknown := by
  rw [foldState, foldl_addStatus]
  simp

theorem foldState_map (rs : List Report) :
    foldState (rs.map (·.status)) =
      if ∃ r ∈ rs, r.status.InTrouble then .degraded
      else if ∃ r ∈ rs, r.status.InOrder then .operational else .unknown := by
  simp only [foldState_eq, List.mem_map, exists_exists_and_eq_and]

/-! ## Updates -/

/-- The board holds the reports `rs`, in the order of the modules' names, with the state
and the notes that follow from them. -/
structure Sums (b : Board) (now : Timestamp) (rs : List Report) : Prop where
  ascending : rs.Pairwise fun r s => r.origin < s.origin
  held : b.held.rows = rs.map fun r => (r.origin, r)
  degraded : b.state = .degraded ↔ ∃ r ∈ rs, r.status.InTrouble
  operational : b.state = .operational ↔
    (¬∃ r ∈ rs, r.status.InTrouble) ∧ ∃ r ∈ rs, r.status.InOrder
  unknown : b.state = .unknown ↔
    (¬∃ r ∈ rs, r.status.InTrouble) ∧ ¬∃ r ∈ rs, r.status.InOrder
  notes : b.notes = rs.map (noteOf now)

theorem Named.origin_of_mem {held : Table Report} (h : Named held) {row : String × Report}
    (hrow : row ∈ held.rows) : row.2.origin = row.1 :=
  h row.1 row.2 (Table.find?_eq_some_iff.mpr hrow)

theorem Named.rows_eq {held : Table Report} (h : Named held) :
    held.rows = held.values.map fun r => (r.origin, r) := by
  have hrow : ∀ row ∈ held.rows, (row.2.origin, row.2) = row := by
    intro row hmem
    rw [h.origin_of_mem hmem]
  calc held.rows = held.rows.map fun row => (row.2.origin, row.2) :=
        ((List.map_congr_left hrow).trans (List.map_id' held.rows)).symm
    _ = held.values.map fun r => (r.origin, r) := by rw [Table.values, List.map_map]; rfl

theorem Named.mem_values_iff {held : Table Report} (h : Named held) {r : Report} :
    r ∈ held.values ↔ held.find? r.origin = some r := by
  constructor
  · intro hr
    obtain ⟨row, hrow, rfl⟩ := List.mem_map.mp hr
    rw [h.origin_of_mem hrow]
    exact Table.find?_eq_some_iff.mpr hrow
  · intro hr
    exact List.mem_map.mpr ⟨(r.origin, r), Table.find?_eq_some_iff.mp hr, rfl⟩

theorem sums_update {b : Board} {now : Timestamp} (h : Named (b.update now).held) :
    (b.update now).Sums now (b.update now).held.values := by
  have hrows := h.rows_eq
  have hstate : (b.update now).state = foldState ((b.update now).held.values.map (·.status)) := rfl
  have hnotes : (b.update now).notes =
      (b.update now).held.rows.map fun row => noteOf now { row.2 with origin := row.1 } := rfl
  rw [foldState_map] at hstate
  refine ⟨?_, hrows, ?_, ?_, ?_, ?_⟩
  · have hascending := (b.update now).held.ascending
    rw [hrows, Ascending, List.pairwise_map] at hascending
    exact hascending
  · rw [hstate]
    split_ifs <;> simp [*]
  · rw [hstate]
    split_ifs <;> simp [*]
  · rw [hstate]
    split_ifs <;> simp [*]
  · rw [hnotes, hrows, List.map_map]
    rfl

/-- After any history, an update leaves the reports that have the last word about their
modules, and sums them up. -/
theorem sums_run_update (es : List Event) (now : Timestamp) :
    ∃ rs, (({} : Board).run (es ++ [.update now])).Sums now rs ∧
      ∀ r, r ∈ rs ↔ LastWord (effects [] (es ++ [.update now])) r := by
  have hheld : (({} : Board).run (es ++ [.update now])).held =
      (effects [] (es ++ [.update now])).foldl Effect.apply Table.empty := held_run _ rfl
  have hnamed : Named (({} : Board).run (es ++ [.update now])).held := by
    rw [hheld]
    refine Named.foldl_apply ?_ _
    intro name r hr
    cases hr
  have hrun : ({} : Board).run (es ++ [.update now]) = (({} : Board).run es).update now :=
    List.foldl_append
  refine ⟨(({} : Board).run (es ++ [.update now])).held.values, ?_, ?_⟩
  · rw [hrun] at hnamed ⊢
    exact sums_update hnamed
  · intro r
    rw [hnamed.mem_values_iff, hheld]
    exact find?_foldl_apply _ r

end Board
end EdgeAgent
