import EdgeAgent.Proofs.Payload.Changes
import EdgeAgent.Proofs.Payload.Codec
import Mathlib.Data.List.Perm.Subperm

/-! # No changes do with less

Whoever holds the old document may remove the deleted names before or after the sent
values are set: no name is both sent and deleted. A name is sent or deleted only where
the two documents differ, and there everybody has to send or delete it, so any other
sets that do have these for subsets. Between two payloads nothing has to change exactly
if they are equal.
-/

namespace EdgeAgent.Document

open Payload

variable {old new : Document}

/-! ## Two orders of an update -/

/-- The deleted names are removed from the old document, then the sent names get the
values that they have in the new one. -/
def removeThenSet (old new : Document) (c : Changes) : Document :=
  old.apply (new.only c.send) c.delete

/-- The sent names get their new values, then the deleted names are removed. -/
def setThenRemove (old new : Document) (c : Changes) : Document :=
  (old.insertAll (new.only c.send).rows).eraseAll c.delete

theorem find?_removeThenSet (old new : Document) (c : Changes) (name : String) :
    (removeThenSet old new c).find? name =
      (if name ∈ c.send then new.find? name else none).or
        (if name ∈ c.delete then none else old.find? name) := by
  rw [removeThenSet, find?_apply, find?_only]

theorem find?_setThenRemove (old new : Document) (c : Changes) (name : String) :
    (setThenRemove old new c).find? name =
      if name ∈ c.delete then none
      else (if name ∈ c.send then new.find? name else none).or (old.find? name) := by
  rw [setThenRemove, Table.find?_eraseAll, Table.find?_insertAll_rows, find?_only]
  simp

/-! ## The changes -/

theorem nodup_keys (d : Document) : d.keys.Nodup := List.pairwise_map.mpr (Table.distinct_rows d)

theorem notMem_delete_of_mem_send {name : String} (h : name ∈ (changes old new).send) :
    name ∉ (changes old new).delete := by
  intro hdelete
  obtain ⟨v, hv, _⟩ := mem_send_iff.mp h
  have hnone := (mem_delete_iff.mp hdelete).2
  rw [hv] at hnone
  cases hnone

theorem setThenRemove_changes (old new : Document) :
    setThenRemove old new (changes old new) = removeThenSet old new (changes old new) := by
  apply Table.ext_find?
  intro name
  rw [find?_setThenRemove, find?_removeThenSet]
  by_cases hdelete : name ∈ (changes old new).delete
  · have hsend : name ∉ (changes old new).send := fun hsend =>
      notMem_delete_of_mem_send hsend hdelete
    rw [if_pos hdelete, if_neg hsend, if_pos hdelete]
    rfl
  · rw [if_neg hdelete, if_neg hdelete]

theorem agree_removeThenSet (hnew : ∀ name v, new.find? name = some v → v.isFinite) :
    Agree (removeThenSet old new (changes old new)) new := by
  intro name
  have hfollow : removeThenSet old new (changes old new) = follow old old new := rfl
  rw [hfollow, find?_follow]
  split
  · assumption
  · exact agree_self hnew name

/-! ## Other sets of names -/

theorem mem_send_of_sameValue {c : Changes} {name : String}
    (h : name ∈ (changes old new).send) {u : Option Json}
    (hu : u = none ∨ u = old.find? name)
    (hsame : sameValue ((if name ∈ c.send then new.find? name else none).or u)
      (new.find? name)) : name ∈ c.send := by
  by_cases hsend : name ∈ c.send
  · exact hsend
  · obtain ⟨v, hv, hdiffers⟩ := mem_send_iff.mp h
    rw [if_neg hsend, Option.none_or, hv] at hsame
    rcases hu with rfl | rfl
    · cases hsame
    · exact absurd hsame (ne_true_of_eq_false hdiffers)

theorem mem_delete_of_sameValue {delete : List String} {name : String}
    (h : name ∈ (changes old new).delete)
    (hsame : sameValue (if name ∈ delete then none else old.find? name) none) :
    name ∈ delete := by
  by_cases hdelete : name ∈ delete
  · exact hdelete
  · rw [if_neg hdelete] at hsame
    have hsome := isSome_of_sameValue hsame
    rw [(mem_delete_iff.mp h).1] at hsome
    cases hsome

theorem subset_of_agree_removeThenSet {c : Changes} (h : Agree (removeThenSet old new c) new) :
    (changes old new).send ⊆ c.send ∧ (changes old new).delete ⊆ c.delete := by
  constructor
  · intro name hname
    have hsame := h name
    rw [find?_removeThenSet] at hsame
    refine mem_send_of_sameValue hname ?_ hsame
    split
    · exact .inl rfl
    · exact .inr rfl
  · intro name hname
    have hsame := h name
    have hnew := (mem_delete_iff.mp hname).2
    rw [find?_removeThenSet, hnew, ite_self, Option.none_or] at hsame
    exact mem_delete_of_sameValue hname hsame

theorem subset_of_agree_setThenRemove {c : Changes} (h : Agree (setThenRemove old new c) new) :
    (changes old new).send ⊆ c.send ∧ (changes old new).delete ⊆ c.delete := by
  constructor
  · intro name hname
    have hsame := h name
    rw [find?_setThenRemove] at hsame
    by_cases hdelete : name ∈ c.delete
    · -- A name that is removed in the end has no value, however it was set before.
      obtain ⟨v, hv, _⟩ := mem_send_iff.mp hname
      rw [if_pos hdelete, hv] at hsame
      cases hsame
    · rw [if_neg hdelete] at hsame
      exact mem_send_of_sameValue hname (.inr rfl) hsame
  · intro name hname
    have hsame := h name
    have hnew := (mem_delete_iff.mp hname).2
    rw [find?_setThenRemove, hnew, ite_self, Option.none_or] at hsame
    exact mem_delete_of_sameValue hname hsame

/-- The changes between two documents lead from the one to the other in either order,
and everybody whose changes do so in some order sends and deletes what they send and
delete. Between payloads there are none exactly if the same attributes have equal values. -/
theorem changes_least {old new : Document} (hnew : (Json.ofDocument new).isFinite) :
    (∀ name ∈ (changes old new).send, name ∉ (changes old new).delete) ∧
      (Json.ofDocument (removeThenSet old new (changes old new)) == Json.ofDocument new) = true ∧
      (Json.ofDocument (setThenRemove old new (changes old new)) == Json.ofDocument new) = true ∧
      (∀ c : Changes,
        (Json.ofDocument (removeThenSet old new c) == Json.ofDocument new) = true ∨
            (Json.ofDocument (setThenRemove old new c) == Json.ofDocument new) = true →
          (changes old new).send ⊆ c.send ∧ (changes old new).delete ⊆ c.delete ∧
            (changes old new).send.length ≤ c.send.length ∧
            (changes old new).delete.length ≤ c.delete.length) ∧
      ∀ p q : Payload, (Payload.changes p q = ⟨[], []⟩ ↔ (p == q) = true) ∧
        ((p == q) = true ↔
          ∀ a, Option.Rel (fun v w => a.kind.same v w = true) (p.value a) (q.value a)) := by
  have hleads : Agree (removeThenSet old new (changes old new)) new :=
    agree_removeThenSet fun _ _ => Json.isFinite_of_find? hnew
  refine ⟨fun name => notMem_delete_of_mem_send, agree_iff.mp hleads, ?_, fun c hc => ?_,
    fun p q => ⟨?_, beq_iff⟩⟩
  · rw [setThenRemove_changes]
    exact agree_iff.mp hleads
  · have hsubset : (changes old new).send ⊆ c.send ∧ (changes old new).delete ⊆ c.delete := by
      rcases hc with hc | hc
      · exact subset_of_agree_removeThenSet (agree_iff.mpr hc)
      · exact subset_of_agree_setThenRemove (agree_iff.mpr hc)
    obtain ⟨hsend, hdelete⟩ := hsubset
    exact ⟨hsend, hdelete, (List.subperm_of_subset (nodup_keys _) hsend).length_le,
      (List.subperm_of_subset (nodup_keys _) hdelete).length_le⟩
  · rw [← agree_toDocument_iff, ← isEmpty_changes_iff]
    show _ ↔ (Payload.changes p q).isEmpty = true
    cases Payload.changes p q
    simp [Changes.isEmpty]

def counted : Document := Table.ofList
  [("a", .double (.zero false)), ("b", .int 1), ("c", .null),
   ("d", .ofDocument (Table.ofList [("x", .arr [.double (.ofNat 1)])]))]

/-- The zero has its other sign, the number is a double, and another name is null. -/
def measured : Document := Table.ofList
  [("a", .double (.zero true)), ("b", .double (.ofNat 1)), ("e", .null),
   ("d", .ofDocument (Table.ofList [("x", .arr [.double (.ofNat 1)])]))]

theorem changes_least_measured :
    (Json.ofDocument measured).isFinite = true ∧ changes counted measured = ⟨["b", "e"], ["c"]⟩ ∧
      (Json.ofDocument (removeThenSet counted measured ⟨["b", "e"], ["c"]⟩) ==
        Json.ofDocument measured) = true ∧
      ∀ c : Changes, (Json.ofDocument (removeThenSet counted measured c) ==
          Json.ofDocument measured) = true → ["b", "e"] ⊆ c.send ∧ ["c"] ⊆ c.delete := by
  have hfinite : (Json.ofDocument measured).isFinite = true := by decide +kernel
  have hchanges : changes counted measured = ⟨["b", "e"], ["c"]⟩ := by decide +kernel
  obtain ⟨_, hleads, _, hleast, _⟩ := @changes_least counted measured hfinite
  rw [hchanges] at hleads hleast
  refine ⟨hfinite, hchanges, hleads, fun c hc => ?_⟩
  obtain ⟨hsend, hdelete, _⟩ := hleast c (.inl hc)
  exact ⟨hsend, hdelete⟩

end EdgeAgent.Document
