import EdgeAgent.Monitor.Vulnerability
import EdgeAgent.Proofs.Data.Ranking
import EdgeAgent.Proofs.Data.Table
import EdgeAgent.Proofs.Number.Order

/-! # What a report says of the findings

Findings may be any JSON values. Those that name no product and those that have no score
are counted and ranked like all others; they only stand aside where the scores are averaged.
-/

namespace EdgeAgent.VulnerabilityReport

/-- A finding has a number for its score. -/
def Scores (item : Json) (x : Double) : Prop :=
  item.member? "vulnerability-score" = some (.double x) ∨
    ∃ n, item.member? "vulnerability-score" = some (.int n) ∧ x = Double.ofInt n

/-- What a finding weighs in the ranking: its score, or nothing. -/
def Weighs (item : Json) (x : Double) : Prop :=
  Scores item x ∨ (∀ y, ¬Scores item y) ∧ x = Double.zero false

/-- What a finding is about. -/
def Concerns (item : Json) (name : String) : Prop :=
  item.member? "product" = some (.str name) ∨
    (∀ other, item.member? "product" ≠ some (.str other)) ∧ name = "unknown"

theorem writtenScore?_eq_some_iff {item : Json} {x : Double} :
    writtenScore? item = some x ↔ Scores item x := by
  unfold writtenScore? Scores
  cases item.member? "vulnerability-score" with
  | none => simp
  | some v =>
      cases v with
      | int n => simp [Json.number?, eq_comm]
      | _ => simp [Json.number?]

theorem weighs_severity (item : Json) : Weighs item (severity item) := by
  unfold severity
  cases hscore : writtenScore? item with
  | some x => exact .inl (writtenScore?_eq_some_iff.mp hscore)
  | none =>
      refine .inr ⟨fun y hy => ?_, rfl⟩
      rw [writtenScore?_eq_some_iff.mpr hy] at hscore
      cases hscore

theorem concerns_iff {item : Json} {name : String} : Concerns item name ↔ name = product item := by
  unfold product Concerns
  cases item.member? "product" with
  | none => simp
  | some v =>
      cases v with
      | str s => simp [Json.text?, eq_comm]
      | _ => simp [Json.text?]

/-- Only one double compares equal to the scanner's word for a missing score. -/
theorem same_unscored_iff {x : Double} : x.same unscored = true ↔ x = unscored := by
  have hsize : unscored.magnitude ≠ 0 := by decide +kernel
  constructor
  · intro h
    simp only [Double.same, Bool.and_eq_true, Bool.or_eq_true, beq_iff_eq, hsize, and_false,
      or_false] at h
    cases x
    cases h.2
    rfl
  · rintro rfl
    decide +kernel

theorem score?_eq_some_iff {item : Json} {x : Double} :
    score? item = some x ↔ Scores item x ∧ x ≠ unscored := by
  rw [score?, Option.filter_eq_some_iff, writtenScore?_eq_some_iff, Bool.not_eq_true',
    ← Bool.not_eq_true, same_unscored_iff]

/-! ## Products -/

theorem mem_keys_products {items : List Json} {name : String} :
    name ∈ (Table.ofList (items.map fun i => (product i, ()))).keys ↔
      ∃ item ∈ items, Concerns item name := by
  simp only [concerns_iff]
  rw [Table.ofList, Table.mem_keys_insertAll]
  simp [Table.keys, Table.empty, eq_comm]

/-! ## Summaries -/

/-- A report on what was found. -/
structure Summarizes (r : VulnerabilityReport) (found : List Json) : Prop where
  total : r.total = found.length
  ascending : r.products.Pairwise (· < ·)
  products : ∀ name, name ∈ r.products ↔ ∃ item ∈ found, Concerns item name
  /-- The first ones are reported of the only ranking that there is. -/
  kept : ∃ ranked, Ranks (fun item => (severity item).rank) found ranked ∧
    (∀ other, Ranks (fun item => (severity item).rank) found other → other = ranked) ∧
      r.items = ranked.take (min 100 r.total)
  /-- Nothing is left out that is severer, or as severe and found before. -/
  leftOut : ∃ left, (r.items ++ left).Perm found ∧
    (∀ item ∈ r.items, ∀ out ∈ left, (severity out).rank ≤ (severity item).rank) ∧
      ∀ k : Int, r.items.filter (fun item => (severity item).rank = k) <+:
        found.filter fun item => (severity item).rank = k
  average : r.average.isSome ↔ ∃ item ∈ found, ∃ x, Scores item x ∧ x ≠ Double.ofInt (-1)

theorem isSome_average_iff {items : List Json} :
    (if (items.filterMap score?).isEmpty then none
      else some (mean (items.filterMap score?))).isSome ↔
        ∃ item ∈ items, ∃ x, Scores item x ∧ x ≠ unscored := by
  simp only [← score?_eq_some_iff]
  split
  · rename_i hnone
    rw [List.isEmpty_iff, List.filterMap_eq_nil_iff] at hnone
    simp only [Option.isSome_none, Bool.false_eq_true, false_iff, not_exists, not_and]
    intro item hitem x hx
    rw [hnone item hitem] at hx
    cases hx
  · rename_i hsome
    rw [List.isEmpty_iff, List.filterMap_eq_nil_iff] at hsome
    simpa [Option.ne_none_iff_exists'] using hsome

/-- Wherever something was found there is a report on it. What it is ranked by is its score,
and a greater rank stands for a greater score. -/
theorem ofItems_summarizes (item : Json) (rest : List Json) :
    (∃ r, ofItems (item :: rest) = some r ∧ r.Summarizes (item :: rest)) ∧
      (∀ i, Weighs i (severity i)) ∧
        ∀ x y : Double, x.isFinite → y.isFinite → (x.rank ≤ y.rank ↔ x.AtMost y) := by
  refine ⟨⟨_, rfl, ?_⟩, weighs_severity, fun x y => Double.rank_le_iff⟩
  generalize item :: rest = found
  have hranks : Ranks (fun item => (severity item).rank) found (found.mergeSort precedes) :=
    ranks_mergeSort _ found
  have htake : (found.mergeSort precedes).take capacity =
      (found.mergeSort precedes).take (min 100 found.length) := by
    rw [← hranks.perm.length_eq, capacity]
    exact List.take_eq_take_min
  exact {
    total := rfl
    ascending := List.pairwise_map.mpr (Table.ascending _)
    products := fun _ => mem_keys_products
    kept := ⟨_, hranks, fun _ => hranks.unique, htake⟩
    leftOut := hranks.take capacity
    average := isSome_average_iff }

end EdgeAgent.VulnerabilityReport
