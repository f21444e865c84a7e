import EdgeAgent.Proofs.Data.Table
import EdgeAgent.Proofs.Json.Equality

/-! # Payloads and their documents

The document of a payload gives the name of every attribute its written value, and has
no other names. Values of a kind are equal exactly if their written forms are, so two
payloads are equal exactly if their documents agree.
-/

namespace EdgeAgent

/-! ## Values -/

namespace Kind

/-- Equality of the values of a kind, as they are and not as they are written. -/
def same : (k : Kind) → k.Carrier → k.Carrier → Bool
  | .state, s, t => decide (s = t)
  | .text, s, t => decide (s = t)
  | .texts, ss, ts => decide (ss = ts)
  | .document, v, w => v == w
  | .documents, vs, ws => vs == ws

theorem same_texts (ss ts : List String) :
    Json.same (Json.texts ss) (Json.texts ts) = decide (ss = ts) := by
  rw [Bool.eq_iff_iff, decide_eq_true_iff]
  constructor
  · intro h
    have hitems : ss.map Json.str = ts.map Json.str := Json.eq_of_sameItems_str h
    exact (List.map_inj_right fun _ _ hstr => Json.str.inj hstr).mp hitems
  · rintro rfl
    exact Json.same_self (Json.isFinite_of_isText (.inr ⟨ss, rfl⟩))

theorem sameItems_eq_beq (vs ws : List Json) : Json.sameItems vs ws = (vs == ws) := by
  induction vs generalizing ws with
  | nil => cases ws <;> rfl
  | cons v vs ih =>
      cases ws with
      | nil => rfl
      | cons w ws =>
          rw [Json.sameItems, ih]
          rfl

theorem beq_encode (k : Kind) (v w : k.Carrier) : (k.encode v == k.encode w) = k.same v w := by
  cases k with
  | state => cases v <;> cases w <;> decide
  | text =>
      show Json.same (.str v) (.str w) = decide (v = w)
      rw [Json.same, Bool.eq_iff_iff, beq_iff_eq, decide_eq_true_iff]
  | texts => exact same_texts v w
  | document => rfl
  | documents => exact sameItems_eq_beq v w

end Kind

/-! ## Payloads -/

namespace Payload

def slots (p : Payload) : List (String × Option Json) :=
  Attribute.all.map fun a => (a.name, (p.value a).map a.kind.encode)

theorem distinct_slots (p : Payload) : Table.Distinct p.slots := by
  have hnames : Attribute.all.Pairwise fun a b => a.name ≠ b.name := by decide
  exact List.pairwise_map.mpr hnames

theorem entries_eq (p : Payload) :
    p.entries = p.slots.filterMap fun (n, v) => v.map fun v => (n, v) := by
  simp only [entries, slots, List.filterMap_map, Function.comp_def, Option.map_map]

theorem mem_entries {p : Payload} {m : String × Json} :
    m ∈ p.entries ↔ ∃ a v, p.value a = some v ∧ m = (a.name, a.kind.encode v) := by
  simp only [entries, List.mem_filterMap, Option.map_eq_some_iff]
  constructor
  · rintro ⟨a, _, v, hv, rfl⟩
    exact ⟨a, v, hv, rfl⟩
  · rintro ⟨a, v, hv, rfl⟩
    exact ⟨a, Attribute.mem_all a, v, hv, rfl⟩

theorem distinct_entries (p : Payload) : Table.Distinct p.entries := by
  have hnames : Attribute.all.Pairwise fun a b => a.name ≠ b.name := by decide
  refine List.pairwise_filterMap.mpr (hnames.imp ?_)
  intro a b hne m hm n hn
  obtain ⟨_, _, rfl⟩ := Option.map_eq_some_iff.mp hm
  obtain ⟨_, _, rfl⟩ := Option.map_eq_some_iff.mp hn
  exact hne

theorem find?_toDocument_eq_join (p : Payload) (name : String) :
    p.toDocument.find? name = (Table.lookRows name p.slots).join := by
  rw [toDocument, Table.find?_ofList p.distinct_entries, entries_eq,
    Table.lookRows_filterMap p.distinct_slots]

theorem find?_toDocument (p : Payload) (a : Attribute) :
    p.toDocument.find? a.name = (p.value a).map a.kind.encode := by
  have hslot : (a.name, (p.value a).map a.kind.encode) ∈ p.slots :=
    List.mem_map.mpr ⟨a, Attribute.mem_all a, rfl⟩
  rw [find?_toDocument_eq_join, Table.lookRows_of_mem p.distinct_slots hslot]
  rfl

theorem find?_toDocument_of_ne (p : Payload) {name : String} (h : ∀ a : Attribute, a.name ≠ name) :
    p.toDocument.find? name = none := by
  have hslots : Table.lookRows name p.slots = none := by
    refine Table.lookRows_eq_none fun r hr => ?_
    obtain ⟨a, _, rfl⟩ := List.mem_map.mp hr
    exact h a
  rw [find?_toDocument_eq_join, hslots]
  rfl

/-! ## Equality -/

theorem beq_iff {p q : Payload} :
    (p == q) = true ↔
      ∀ a, Option.Rel (fun v w => a.kind.same v w = true) (p.value a) (q.value a) := by
  have hattribute (a : Attribute) :
      sameValue ((p.value a).map a.kind.encode) ((q.value a).map a.kind.encode) = true ↔
        Option.Rel (fun v w => a.kind.same v w = true) (p.value a) (q.value a) := by
    cases hp : p.value a with
    | none =>
        cases hq : q.value a with
        | none => exact iff_of_true rfl .none
        | some w => exact iff_of_false Bool.false_ne_true (by rintro ⟨⟩)
    | some v =>
        cases hq : q.value a with
        | none => exact iff_of_false Bool.false_ne_true (by rintro ⟨⟩)
        | some w =>
            have hsame : sameValue (some (a.kind.encode v)) (some (a.kind.encode w)) =
                a.kind.same v w := a.kind.beq_encode v w
            rw [Option.map_some, Option.map_some, hsame]
            constructor
            · intro h
              exact .some h
            · rintro ⟨h⟩
              exact h
  constructor
  · intro h a
    exact (hattribute a).mp (List.all_eq_true.mp h a (Attribute.mem_all a))
  · intro h
    exact List.all_eq_true.mpr fun a _ => (hattribute a).mpr (h a)

/-- Equal payloads have documents that agree, and no others do. -/
theorem agree_toDocument_iff {p q : Payload} :
    Document.Agree p.toDocument q.toDocument ↔ (p == q) = true := by
  constructor
  · intro h
    refine List.all_eq_true.mpr fun a _ => ?_
    rw [← find?_toDocument, ← find?_toDocument]
    exact h a.name
  · intro h name
    by_cases hname : ∃ a : Attribute, a.name = name
    · obtain ⟨a, rfl⟩ := hname
      rw [find?_toDocument, find?_toDocument]
      exact List.all_eq_true.mp h a (Attribute.mem_all a)
    · rw [find?_toDocument_of_ne p (not_exists.mp hname),
        find?_toDocument_of_ne q (not_exists.mp hname)]
      rfl

end Payload
end EdgeAgent
