import EdgeAgent.Payload.Changes
import EdgeAgent.Proofs.Data.Table
import EdgeAgent.Proofs.Json.Equality

/-! # Changes lead from one document to the other

What is sent and what is deleted, read off the look-ups of the two documents. A
holder whose document agrees with the old one agrees with the new one after the
update.
-/

namespace EdgeAgent.Document

open Payload

/-! ## The two sets of names -/

theorem mem_send_iff {old new : Document} {name : String} :
    name ∈ (changes old new).send ↔
      ∃ v, new.find? name = some v ∧ sameValue (old.find? name) (some v) = false := by
  rw [changes, Table.mem_keys_iff, Table.find?_filter]
  cases new.find? name <;> simp [Option.filter, differs]

theorem mem_delete_iff {old new : Document} {name : String} :
    name ∈ (changes old new).delete ↔ (old.find? name).isSome ∧ new.find? name = none := by
  rw [changes, Table.mem_keys_iff, Table.find?_filter]
  cases old.find? name <;> simp [Option.filter, Table.contains]

theorem isEmpty_changes_iff {old new : Document} :
    (changes old new).isEmpty ↔ Agree old new := by
  simp only [Changes.isEmpty, Bool.and_eq_true, List.isEmpty_iff, List.eq_nil_iff_forall_not_mem]
  constructor
  · rintro ⟨hsend, hdelete⟩ name
    have hkept := hsend name
    have hthere := hdelete name
    rw [mem_send_iff] at hkept
    rw [mem_delete_iff] at hthere
    cases hv : new.find? name with
    | none => cases hu : old.find? name <;> simp [hu, hv, sameValue] at hthere ⊢
    | some v => simpa [hv] using hkept
  · intro h
    refine ⟨fun name hname => ?_, fun name hname => ?_⟩
    · obtain ⟨v, hv, hdiffers⟩ := mem_send_iff.mp hname
      have hsame := h name
      rw [hv, hdiffers] at hsame
      exact Bool.false_ne_true hsame
    · obtain ⟨hold, hnew⟩ := mem_delete_iff.mp hname
      have hsome := isSome_of_sameValue (h name)
      simp [hold, hnew] at hsome

/-! ## Updates -/

theorem find?_only (d : Document) (names : List String) (name : String) :
    (d.only names).find? name = if name ∈ names then d.find? name else none := by
  rw [only, Table.find?_filter]
  cases d.find? name <;> simp [Option.filter]

theorem find?_apply (d data : Document) (delete : List String) (name : String) :
    (d.apply data delete).find? name =
      (data.find? name).or (if name ∈ delete then none else d.find? name) := by
  rw [apply, Table.find?_insertAll_rows, Table.find?_eraseAll]
  simp

/-- The document of a holder after it was told what has changed from one document
to another. -/
def follow (d old new : Document) : Document :=
  d.apply (new.only (changes old new).send) (changes old new).delete

theorem mem_changes_iff {old new : Document} {name : String} :
    name ∈ (changes old new).send ∨ name ∈ (changes old new).delete ↔
      sameValue (old.find? name) (new.find? name) = false := by
  rw [mem_send_iff, mem_delete_iff]
  cases old.find? name <;> cases new.find? name <;> simp [sameValue]

theorem find?_follow (d old new : Document) (name : String) :
    (follow d old new).find? name =
      if sameValue (old.find? name) (new.find? name) then d.find? name else new.find? name := by
  rw [follow, find?_apply, find?_only]
  by_cases hsame : sameValue (old.find? name) (new.find? name)
  · have hkept := mt mem_changes_iff.mp (ne_false_of_eq_true hsame)
    rw [not_or] at hkept
    rw [if_pos hsame, if_neg hkept.1, if_neg hkept.2, Option.none_or]
  · rw [if_neg hsame]
    cases hv : new.find? name with
    | none =>
        have hdelete : name ∈ (changes old new).delete := by
          rw [mem_delete_iff]
          cases hu : old.find? name <;> simp [hu, hv, sameValue] at hsame ⊢
        simp [hdelete]
    | some v =>
        have hsend : name ∈ (changes old new).send :=
          mem_send_iff.mpr ⟨v, hv, by simpa [hv] using hsame⟩
        rw [if_pos hsend, Option.some_or]

theorem agree_follow {d old new : Document} (h : Agree d old)
    (hnew : ∀ name v, new.find? name = some v → v.isFinite) : Agree (follow d old new) new := by
  intro name
  rw [find?_follow]
  by_cases hsame : sameValue (old.find? name) (new.find? name)
  · rw [if_pos hsame]
    exact sameValue_trans (h name) hsame
  · rw [if_neg hsame]
    exact agree_self hnew name

end EdgeAgent.Document
