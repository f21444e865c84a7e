import EdgeAgent.Commission.Attributes
import EdgeAgent.Proofs.Json.Record
import EdgeAgent.Proofs.Payload.Changes

/-! # Commissioned attributes, their document and their file

The document of the attributes determines them, and so does the text of their
file. A request is made exactly when the attributes differ from the accepted
ones, and it leads a server from the one document to the other.
-/

namespace EdgeAgent

open Json

/-- What the server makes of an accepted request: the names under `removed` are
removed, the other attributes are set. -/
def Document.commission (d payload : Document) : Document :=
  d.apply (payload.erase "removed") (((payload.find? "removed").bind Json.texts?).getD [])

namespace Attributes

/-! ## Names and values -/

/-- All names, each with its value if it is set. -/
def slots (a : Attributes) : List (String × Option Json) :=
  [("capabilities", a.capabilities.map Json.texts), ("cluster-id", a.clusterId.map .str),
   ("cluster-orchestrator", a.clusterOrchestrator.map .str),
   ("cluster-managers", a.clusterManagers.map Json.texts),
   ("cluster-workers", a.clusterWorkers.map Json.texts)]

theorem distinct_slots (a : Attributes) : Table.Distinct a.slots := by
  simp [Table.Distinct, slots]

theorem mem_slots {a : Attributes} {m : String × Json} (h : m ∈ a.entries) :
    (m.1, some m.2) ∈ a.slots := by
  obtain ⟨⟨n, v⟩, hslot, hm⟩ := List.mem_filterMap.mp h
  obtain ⟨w, rfl, rfl⟩ := Option.map_eq_some_iff.mp hm
  exact hslot

theorem distinct_entries (a : Attributes) : Table.Distinct a.entries := by
  refine List.pairwise_filterMap.mpr (a.distinct_slots.imp ?_)
  intro x y hne b hb c hc
  obtain ⟨_, _, rfl⟩ := Option.map_eq_some_iff.mp hb
  obtain ⟨_, _, rfl⟩ := Option.map_eq_some_iff.mp hc
  exact hne

theorem lookRows_entries (a : Attributes) (name : String) :
    Table.lookRows name a.entries = (Table.lookRows name a.slots).join :=
  Table.lookRows_filterMap a.distinct_slots name

theorem find?_toDocument (a : Attributes) (name : String) :
    a.toDocument.find? name = (Table.lookRows name a.slots).join := by
  rw [toDocument, Table.find?_ofList a.distinct_entries, lookRows_entries]

theorem ofRow_lookRows (a : Attributes) :
    ofRow (fields.map fun f => Table.lookRows f.name a.entries) = a := by
  have hrow : (fields.map fun f => Table.lookRows f.name a.entries) =
      [a.capabilities.map Json.texts, a.clusterId.map .str, a.clusterOrchestrator.map .str,
       a.clusterManagers.map Json.texts, a.clusterWorkers.map Json.texts] := by
    simp only [fields, List.map_cons, List.map_nil, lookRows_entries]
    rfl
  have htexts : ∀ v : Option (List String), (v.map Json.texts).bind Json.texts? = v := by
    intro v
    cases v <;> simp [texts?_texts]
  have htext : ∀ v : Option String, (v.map Json.str).bind Json.text? = v := by
    intro v
    cases v <;> rfl
  rw [hrow]
  simp [ofRow, Row.at?, htexts, htext]

theorem toDocument_injective {a b : Attributes} (h : a.toDocument = b.toDocument) : a = b := by
  have hlook : ∀ name, Table.lookRows name a.entries = Table.lookRows name b.entries := by
    intro name
    rw [lookRows_entries, lookRows_entries, ← find?_toDocument, ← find?_toDocument, h]
  rw [← ofRow_lookRows a, ← ofRow_lookRows b]
  simp only [hlook]

theorem cases_of_mem_entries {a : Attributes} {n : String} {v : Json} (h : (n, v) ∈ a.entries) :
    (∃ s, v = .str s ∧ (n = "cluster-id" ∨ n = "cluster-orchestrator")) ∨
      ∃ ss, v = Json.texts ss ∧
        (n = "capabilities" ∨ n = "cluster-managers" ∨ n = "cluster-workers") := by
  have hslot := mem_slots h
  simp only [slots, List.mem_cons, Prod.mk.injEq, List.not_mem_nil, or_false] at hslot
  rcases hslot with ⟨rfl, hv⟩ | ⟨rfl, hv⟩ | ⟨rfl, hv⟩ | ⟨rfl, hv⟩ | ⟨rfl, hv⟩
  · obtain ⟨ss, _, rfl⟩ := Option.map_eq_some_iff.mp hv.symm
    exact .inr ⟨ss, rfl, .inl rfl⟩
  · obtain ⟨s, _, rfl⟩ := Option.map_eq_some_iff.mp hv.symm
    exact .inl ⟨s, rfl, .inl rfl⟩
  · obtain ⟨s, _, rfl⟩ := Option.map_eq_some_iff.mp hv.symm
    exact .inl ⟨s, rfl, .inr rfl⟩
  · obtain ⟨ss, _, rfl⟩ := Option.map_eq_some_iff.mp hv.symm
    exact .inr ⟨ss, rfl, .inr (.inl rfl)⟩
  · obtain ⟨ss, _, rfl⟩ := Option.map_eq_some_iff.mp hv.symm
    exact .inr ⟨ss, rfl, .inr (.inr rfl)⟩

/-! ## The file -/

theorem readsBack_of_mem_entries {a : Attributes} {m : String × Json} (h : m ∈ a.entries) :
    ReadsBack m.2 := by
  rcases cases_of_mem_entries h with ⟨s, hv, _⟩ | ⟨ss, hv, _⟩
  · rw [hv]
    exact readsBack_str s
  · rw [hv]
    refine readsBack_arr fun v hv => ?_
    obtain ⟨s, _, rfl⟩ := List.mem_map.mp hv
    exact readsBack_str s

theorem takes_of_mem_entries {a : Attributes} {m : String × Json} (h : m ∈ a.entries) :
    ∃ f, fields.find? (·.name == m.1) = some f ∧ f.Takes m.2 := by
  rcases cases_of_mem_entries h with ⟨s, hv, hn | hn⟩ | ⟨ss, hv, hn | hn | hn⟩
  · rw [hv, hn]
    exact ⟨_, rfl, takes_str rfl s⟩
  · rw [hv, hn]
    exact ⟨_, rfl, takes_str rfl s⟩
  · rw [hv, hn]
    exact ⟨_, rfl, takes_texts rfl ss⟩
  · rw [hv, hn]
    exact ⟨_, rfl, takes_texts rfl ss⟩
  · rw [hv, hn]
    exact ⟨_, rfl, takes_texts rfl ss⟩

theorem parse_fileText (a : Attributes) : parse a.fileText = .ok a := by
  have hoptional : ∀ f ∈ fields, f.absence = .refused →
      (Table.lookRows f.name a.entries).isSome := by
    intro f hf hrefused
    simp only [fields, List.mem_cons, List.not_mem_nil, or_false] at hf
    rcases hf with rfl | rfl | rfl | rfl | rfl <;> cases hrefused
  have hrow := Record.parseRecord_prettyText fields
    (readsBack_obj fun _ hm => readsBack_of_mem_entries hm) a.distinct_entries
    (fun _ hm => takes_of_mem_entries hm) hoptional
  rw [parse, fileText, hrow, Except.map, ofRow_lookRows]

/-! ## Requests -/

theorem isText_of_find? {a : Attributes} {name : String} {v : Json}
    (h : a.toDocument.find? name = some v) : v.IsText := by
  rw [find?_toDocument, ← lookRows_entries] at h
  rcases cases_of_mem_entries (Table.mem_of_lookRows h) with ⟨s, hv, _⟩ | ⟨ss, hv, _⟩
  · exact .inl ⟨s, hv⟩
  · exact .inr ⟨ss, hv⟩

theorem agree_toDocument (a : Attributes) : Document.Agree a.toDocument a.toDocument :=
  Document.agree_self fun _ _ h => isFinite_of_isText (isText_of_find? h)

theorem request_eq_none_iff {accepted current : Attributes} :
    request accepted current = none ↔ current = accepted := by
  have hchanges : (Document.changes accepted.toDocument current.toDocument).isEmpty ↔
      current = accepted := by
    rw [Document.isEmpty_changes_iff]
    constructor
    · intro h
      exact (toDocument_injective (Document.eq_of_agree h fun _ _ => isText_of_find?)).symm
    · rintro rfl
      exact current.agree_toDocument
  rw [← hchanges]
  unfold request
  dsimp only
  split <;> simp_all

/-- No attribute is called `removed`. -/
theorem find?_removed (a : Attributes) : a.toDocument.find? "removed" = none := by
  rw [find?_toDocument]
  rfl

theorem request_spec {accepted current : Attributes} {payload : Document}
    (h : request accepted current = some payload) :
    payload.erase "removed" = current.toDocument.only
        (Document.changes accepted.toDocument current.toDocument).send ∧
      ((payload.find? "removed").bind Json.texts?).getD [] =
        (Document.changes accepted.toDocument current.toDocument).delete := by
  unfold request at h
  dsimp only at h
  have hfree : (current.toDocument.only
      (Document.changes accepted.toDocument current.toDocument).send).find? "removed" = none := by
    rw [Document.find?_only, find?_removed, ite_self]
  split at h
  · cases h
  · split at h
    · rename_i hdelete
      obtain rfl := Option.some.inj h
      refine ⟨Table.erase_of_find?_eq_none hfree, ?_⟩
      rw [hfree, List.isEmpty_iff.mp hdelete]
      rfl
    · obtain rfl := Option.some.inj h
      refine ⟨Table.erase_insert hfree _, ?_⟩
      rw [Table.find?_insert, if_pos rfl, Option.bind_some, texts?_texts]
      rfl

/-- A request leads the server from the accepted document to the current one. -/
theorem commission_request {accepted current : Attributes} {payload : Document}
    (h : request accepted current = some payload) :
    accepted.toDocument.commission payload = current.toDocument := by
  obtain ⟨hdata, hdelete⟩ := request_spec h
  rw [Document.commission, hdata, hdelete]
  exact Document.eq_of_agree
    (Document.agree_follow accepted.agree_toDocument fun _ _ hv =>
      isFinite_of_isText (isText_of_find? hv))
    fun _ _ => isText_of_find?

end Attributes
end EdgeAgent
