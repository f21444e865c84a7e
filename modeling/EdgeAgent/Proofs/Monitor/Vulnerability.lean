import EdgeAgent.Monitor.Vulnerability
import EdgeAgent.Proofs.Json.Readable
import EdgeAgent.Proofs.Payload.Codec

/-! # How deep a scan is nested in the telemetry

The scanner's findings are read as items of an array, and are sent three levels
deeper than they stand in the report: in the items, in the report, and in the
telemetry.
-/

namespace EdgeAgent

open Json

namespace Json

theorem depth_le_depthItems {v : Json} {items : List Json} (h : v ∈ items) :
    v.depth ≤ depthItems items := by
  induction items with
  | nil => cases h
  | cons w items ih =>
      rcases List.mem_cons.mp h with rfl | h
      · exact Nat.le_max_left _ _
      · exact (ih h).trans (Nat.le_max_right _ _)

theorem depth_lt_of_find? {d : Document} (name : String) {v : Json} (h : d.find? name = some v) :
    v.depth < (ofDocument d).depth :=
  Nat.lt_succ_of_le
    (depthMembers_le_iff.mp (Nat.le_refl _) (name, v) (Table.find?_eq_some_iff.mp h))

theorem rangedItems_iff {items : List Json} : RangedItems items ↔ ∀ v ∈ items, Ranged v := by
  induction items with
  | nil => simp [RangedItems]
  | cons v items ih => simp [RangedItems, ih]

theorem ranged_ofDocument_iff {d : Document} :
    (ofDocument d).Ranged ↔ ∀ m ∈ d.rows, Ranged m.2 := rangedMembers_iff

theorem ranged_texts (ss : List String) : (texts ss).Ranged := by
  refine rangedItems_iff.mpr fun v hv => ?_
  obtain ⟨s, _, rfl⟩ := List.mem_map.mp hv
  trivial

theorem mismatch_ne_ok {α : Type} (t : Term) (a : α) : Term.mismatch t ≠ .ok a := by
  unfold Term.mismatch
  split <;> exact nofun

theorem fits_parseItems {s : String} {items : List Json} (h : parseItems s = .ok items) :
    depthItems items ≤ depthLimit - 1 ∧ RangedItems items := by
  have hnumeric : (Reader.read s.toList).1.Numeric := (Reader.numeric_parts _).1 s.toList
  unfold parseItems decode at h
  generalize Reader.read s.toList = out at *
  obtain ⟨t, rest⟩ := out
  cases t with
  | array whole ts f =>
      simp only at h
      cases hitems : Term.jsonItems (depthLimit - 1) ts with
      | error e =>
          rw [hitems] at h
          cases h
      | ok values =>
          rw [hitems] at h
          cases f with
          | some f => cases h
          | none =>
              simp only [bind, Except.bind, Except.mapError, Term.proceed, pure, Except.pure] at h
              split at h
              · obtain rfl := Except.ok.inj h
                exact Term.fits_jsonItems hnumeric hitems
              · cases h
  | _ =>
      simp only [bind, Except.bind] at h
      split at h
      · cases h
      · rename_i hmismatch
        exact absurd hmismatch (mismatch_ne_ok _ _)

/-! ## Arrays in arrays -/

def nested : Nat → Json
  | 0 => .arr []
  | n + 1 => .arr [nested n]

theorem depth_nested (n : Nat) : (nested n).depth = n + 1 := by
  induction n with
  | zero => rfl
  | succ n ih => simp [nested, depth, depthItems, ih]

theorem readsBack_nested (n : Nat) : ReadsBack (nested n) := by
  induction n with
  | zero => exact readsBack_arr (by simp)
  | succ n ih =>
      apply readsBack_arr
      intro v hv
      rw [List.mem_singleton.mp hv]
      exact ih

theorem json_nested {n room : Nat} {t : Term} (h : Reads (nested n) t) (hroom : n < room) :
    t.json room = .ok (nested n) := by
  induction n generalizing room t with
  | zero =>
      obtain ⟨room, rfl⟩ : ∃ r, room = r + 1 := ⟨room - 1, by omega⟩
      obtain ⟨_, _, rfl, rfl⟩ := h
      rfl
  | succ n ih =>
      obtain ⟨room, rfl⟩ : ∃ r, room = r + 1 := ⟨room - 1, by omega⟩
      obtain ⟨_, _, rfl, u, _, rfl, hu, rfl⟩ := h
      have hinner : u.json room = .ok (nested n) := ih hu (by omega)
      simp only [Term.json, Term.jsonItems, hinner]
      rfl

theorem parseItems_nested {n : Nat} (h : n + 1 < depthLimit) :
    parseItems (nested (n + 1)).prettyText = .ok [nested n] := by
  obtain ⟨t, hread, _, _, rfl, u, _, rfl, hu, rfl⟩ :=
    read_prettyText (readsBack_nested (n + 1)).readsAs
  have hinner : u.json (depthLimit - 1) = .ok (nested n) := json_nested hu (by omega)
  simp only [parseItems, decode, hread, Term.jsonItems, hinner]
  rfl

theorem isBlankText_nested (n : Nat) : Text.isBlankText (nested n).prettyText = false := by
  rw [Text.isBlankText, prettyText, String.toList_ofList]
  cases n with
  | zero => rfl
  | succ n => rfl

end Json

/-! ## Payloads -/

namespace Payload

theorem ranged_toDocument {p : Payload}
    (h : ∀ a v, p.value a = some v → (a.kind.encode v).Ranged) :
    (ofDocument p.toDocument).Ranged := by
  refine ranged_ofDocument_iff.mpr fun m hm => ?_
  obtain ⟨a, v, hv, rfl⟩ := mem_entries.mp (Table.mem_ofList hm)
  exact h a v hv

end Payload

/-! ## Reports -/

namespace VulnerabilityReport

theorem depth_toJson {r : VulnerabilityReport} {item : Json} (h : item ∈ r.items) :
    item.depth + 2 ≤ r.toJson.depth := by
  have hdepth : item.depth + 1 ≤ (Json.arr r.items).depth :=
    Nat.succ_le_succ (depth_le_depthItems h)
  refine Nat.succ_le_of_lt (hdepth.trans_lt (depth_lt_of_find? "items" ?_))
  rw [Table.find?_ofList (by simp [Table.Distinct])]
  simp [Table.lookRows]

theorem ranged_toJson {r : VulnerabilityReport} (h : RangedItems r.items)
    (htotal : r.total < 2 ^ 64) : r.toJson.Ranged := by
  have hcount : Ranged (.ofNat r.total) := ⟨by omega, by exact_mod_cast htotal⟩
  have hplain : (ofDocument (Table.ofList
      [("total", .ofNat r.total), ("affected-products", Json.texts r.products)])).Ranged := by
    refine ranged_ofDocument_iff.mpr fun m hm => ?_
    rcases List.mem_cons.mp (Table.mem_ofList hm) with rfl | hm
    · exact hcount
    · obtain rfl := List.mem_singleton.mp hm
      exact ranged_texts r.products
  refine ranged_ofDocument_iff.mpr fun m hm => ?_
  rcases List.mem_cons.mp (Table.mem_ofList hm) with rfl | hm
  · simp only
    split
    · rename_i x _
      refine ranged_ofDocument_iff.mpr fun m hm => ?_
      rcases Table.mem_putRows hm with rfl | hm
      · unfold ofDouble
        split
        · trivial
        · trivial
      · exact ranged_ofDocument_iff.mp hplain m hm
    · exact hplain
  · obtain rfl := List.mem_singleton.mp hm
    exact h

end VulnerabilityReport

namespace Vulnerabilities

theorem value_populate {r : VulnerabilityReport} (p : Payload) :
    (populate ⟨some r⟩ p).value .vulnerabilities = some r.toJson :=
  Payload.value_set_self p .vulnerabilities _

theorem depth_populate {r : VulnerabilityReport} {item : Json} (h : item ∈ r.items) (p : Payload) :
    item.depth + 3 ≤ (ofDocument (populate ⟨some r⟩ p).toDocument).depth := by
  have hreport := VulnerabilityReport.depth_toJson h
  have hfind : (populate ⟨some r⟩ p).toDocument.find? Attribute.vulnerabilities.name =
      some r.toJson := by
    rw [Payload.find?_toDocument, value_populate]
    rfl
  have hdepth := depth_lt_of_find? _ hfind
  exact (Nat.succ_le_succ hreport).trans (Nat.succ_le_of_lt hdepth)

theorem update_nested {n : Nat} (h : n + 1 < depthLimit) {w : World}
    (hread : w.files.read (file w.sharedRoot) = .ok (nested (n + 1)).prettyText)
    (v : Vulnerabilities) :
    ∃ r, v.update w = .ok ⟨some r⟩ ∧ r.items = [nested n] ∧ r.total = 1 := by
  simp only [update, hread, isBlankText_nested, parseItems_nested h]
  refine ⟨_, rfl, ?_, rfl⟩
  rw [List.mergeSort_singleton]
  rfl

end Vulnerabilities
end EdgeAgent
