import EdgeAgent.Proofs.Data.Table
import EdgeAgent.Status.Board

/-! # Errors of the engine on the status board

A report that finds room is the last one to be taken over, so a review shows the
errors of the engine whatever else was reported. The report waits in the queue of
all others: when that is full, the errors are lost with it.
-/

namespace EdgeAgent.Board

/-! ## The state of the edge -/

theorem foldl_addStatus_degraded (statuses : List ModuleStatus) :
    statuses.foldl addStatus .degraded = .degraded := by
  induction statuses with
  | nil => rfl
  | cons m rest ih =>
      have hstep : addStatus .degraded m = .degraded := by cases m <;> rfl
      rw [List.foldl_cons, hstep, ih]

theorem foldState_of_mem {statuses : List ModuleStatus} (h : .failing ∈ statuses) :
    foldState statuses = .degraded := by
  obtain ⟨earlier, later, rfl⟩ := List.append_of_mem h
  have hstep : addStatus (earlier.foldl addStatus .unknown) .failing = .degraded := rfl
  rw [foldState, List.foldl_append, List.foldl_cons, hstep, foldl_addStatus_degraded]

/-! ## Posting -/

theorem post_of_full {b : Board} (h : capacity ≤ b.waiting.length) (r : Report) :
    b.post r = b := by
  rw [post, if_neg (Nat.not_lt.mpr h)]

theorem find?_update_post {b : Board} (h : b.waiting.length < capacity) (r : Report)
    {now : Timestamp} (hfresh : isFresh now r) :
    ((b.post r).update now).held.find? r.origin = some r := by
  have hdrain : (b.post r).drain.held = b.drain.held.insert r.origin r := by
    rw [post, if_pos h]
    simp [drain]
  simp only [update]
  rw [Table.find?_filter, hdrain, Table.find?_insert, if_pos rfl]
  simp [Option.filter, hfresh]

theorem update_of_failing {b : Board} {now : Timestamp} {r : Report}
    (h : (b.update now).held.find? r.origin = some r) (hfailing : r.status = .failing) :
    (b.update now).state = .degraded ∧ noteOf now r ∈ (b.update now).notes := by
  have hrow : (r.origin, r) ∈ (b.update now).held.rows := Table.find?_eq_some_iff.mp h
  refine ⟨?_, ?_⟩
  · refine foldState_of_mem (List.mem_map.mpr ⟨r, ?_, hfailing⟩)
    exact List.mem_map.mpr ⟨(r.origin, r), hrow, rfl⟩
  · exact List.mem_map.mpr ⟨(r.origin, r), hrow, rfl⟩

/-! ## Errors of the engine -/

/-- The report on errors of the engine. -/
def engineReport (date : Timestamp) (errors : List String) : Report :=
  ⟨"COE", .failing, date, "\n".intercalate errors⟩

/-- The board shows errors of the engine. -/
structure Shows (b : Board) (now : Timestamp) (errors : List String) : Prop where
  state : b.state = .degraded
  note : ∃ date, noteOf now (engineReport date errors) ∈ b.notes

theorem isFresh_self (now : Timestamp) (errors : List String) :
    isFresh now (engineReport now errors) := by
  unfold isFresh engineReport
  apply decide_eq_true
  simp [lifetime]

theorem review_of_errors {errors : List String} (h : errors ≠ []) (b : Board) (now : Timestamp) :
    b.review now errors = (b.post (engineReport now errors)).update now := by
  cases errors with
  | nil => exact (h rfl).elim
  | cons e rest => rfl

/-- Errors of the engine are shown if their report finds room. If it finds none, the
review is the one of an engine without errors. -/
theorem review_shows_iff {errors : List String} (h : errors ≠ []) (b : Board) (now : Timestamp) :
    ((b.review now errors).Shows now errors ↔
      b.waiting.length < capacity ∨ (b.review now []).Shows now errors) ∧
    (b.waiting.length < capacity →
      (b.review now errors).held.find? "COE" = some (engineReport now errors)) ∧
    (capacity ≤ b.waiting.length → b.review now errors = b.review now []) := by
  have hroom : b.waiting.length < capacity →
      (b.review now errors).held.find? "COE" = some (engineReport now errors) := by
    intro hroom
    rw [review_of_errors h]
    exact find?_update_post hroom (engineReport now errors) (isFresh_self now errors)
  have hfull : capacity ≤ b.waiting.length → b.review now errors = b.review now [] := by
    intro hfull
    rw [review_of_errors h, post_of_full hfull]
    rfl
  refine ⟨⟨?_, ?_⟩, hroom, hfull⟩
  · intro hshows
    by_cases hlt : b.waiting.length < capacity
    · exact .inl hlt
    · rw [hfull (Nat.not_lt.mp hlt)] at hshows
      exact .inr hshows
  · intro hor
    by_cases hlt : b.waiting.length < capacity
    · have hheld := hroom hlt
      rw [review_of_errors h] at hheld ⊢
      obtain ⟨hstate, hnote⟩ := update_of_failing (r := engineReport now errors) hheld rfl
      exact ⟨hstate, now, hnote⟩
    · rw [hfull (Nat.not_lt.mp hlt)]
      exact hor.resolve_left hlt

/-- A board with no room for another report. -/
def full : Board where
  waiting := List.replicate capacity ⟨"m", .running, ⟨0, 0⟩, ""⟩

theorem review_shows_iff_full :
    ["boom"] ≠ [] ∧ capacity ≤ full.waiting.length ∧
      ((full.review ⟨0, 0⟩ ["boom"]).Shows ⟨0, 0⟩ ["boom"] ↔
        full.waiting.length < capacity ∨ (full.review ⟨0, 0⟩ []).Shows ⟨0, 0⟩ ["boom"]) ∧
      (full.waiting.length < capacity → (full.review ⟨0, 0⟩ ["boom"]).held.find? "COE" =
        some (engineReport ⟨0, 0⟩ ["boom"])) ∧
      (capacity ≤ full.waiting.length → full.review ⟨0, 0⟩ ["boom"] = full.review ⟨0, 0⟩ []) :=
  ⟨by simp, by simp [full], review_shows_iff (by simp) full ⟨0, 0⟩⟩

/-- The engine's errors are lost, and the edge is taken to be operational. -/
theorem not_shows_full :
    (full.review ⟨0, 0⟩ ["boom"]).state = .operational ∧
      ¬(full.review ⟨0, 0⟩ ["boom"]).Shows ⟨0, 0⟩ ["boom"] := by
  have hstate : (full.review ⟨0, 0⟩ ["boom"]).state = .operational := by decide +kernel
  refine ⟨hstate, ?_⟩
  intro h
  rw [h.state] at hstate
  cases hstate

end EdgeAgent.Board
