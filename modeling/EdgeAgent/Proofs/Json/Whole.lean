import EdgeAgent.Proofs.Json.Readable

/-! # Values without doubles are read back as they are

A double may come back as another one. A value that has none comes back as it was written,
if it is not nested too deep.
-/

namespace EdgeAgent.Json

open Reader

/-! ## Values -/

mutual
/-- The value has no doubles. Its whole numbers have sixty-four bits, and the members of its
objects are in order. -/
def IsWhole : Json → Prop
  | .int n => InRange n
  | .double _ => False
  | .arr items => AreWhole items
  | .obj members => Ascending members ∧ HaveWhole members
  | _ => True

def AreWhole : List Json → Prop
  | [] => True
  | v :: rest => IsWhole v ∧ AreWhole rest

def HaveWhole : List (String × Json) → Prop
  | [] => True
  | (_, v) :: rest => IsWhole v ∧ HaveWhole rest
end

mutual
instance IsWhole.decide : (v : Json) → Decidable v.IsWhole
  | .int n => inferInstanceAs (Decidable (InRange n))
  | .double _ => .isFalse id
  | .arr items => AreWhole.decide items
  | .obj members => @instDecidableAnd _ _ inferInstance (HaveWhole.decide members)
  | .null | .bool _ | .str _ => .isTrue trivial

def AreWhole.decide : (vs : List Json) → Decidable (AreWhole vs)
  | [] => .isTrue trivial
  | v :: rest => @instDecidableAnd _ _ (IsWhole.decide v) (AreWhole.decide rest)

def HaveWhole.decide : (ms : List (String × Json)) → Decidable (HaveWhole ms)
  | [] => .isTrue trivial
  | (_, v) :: rest => @instDecidableAnd _ _ (IsWhole.decide v) (HaveWhole.decide rest)
end

theorem haveWhole_iff {ms : List (String × Json)} :
    HaveWhole ms ↔ ∀ m ∈ ms, IsWhole m.2 := by
  induction ms with
  | nil => simp [HaveWhole]
  | cons m ms ih => simp [HaveWhole, ih]

theorem isWhole_ofDocument_iff {d : Document} :
    (ofDocument d).IsWhole ↔ ∀ m ∈ d.rows, IsWhole m.2 :=
  (and_iff_right d.ascending).trans haveWhole_iff

/-! ## Texts -/

mutual
theorem readsAs_self {v : Json} (h : v.IsWhole) : ReadsAs v v := by
  cases v with
  | null => exact readsAs_null fun _ => rfl
  | bool b => exact readsAs_bool b
  | int n => exact readsAs_int h
  | double x => exact h.elim
  | str s => exact (readsBack_str s).readsAs
  | arr items => exact readsAs_arr (itemsReadAs_self h)
  | obj members => exact readsAs_obj (membersReadAs_self h.2)

theorem itemsReadAs_self {vs : List Json} (h : AreWhole vs) : List.Forall₂ ReadsAs vs vs := by
  cases vs with
  | nil => exact .nil
  | cons v vs => exact .cons (readsAs_self h.1) (itemsReadAs_self h.2)

theorem membersReadAs_self {ms : List (String × Json)} (h : HaveWhole ms) :
    MembersReadAs ms ms := by
  cases ms with
  | nil => exact .nil
  | cons m ms => exact .cons ⟨rfl, readsAs_self h.1⟩ (membersReadAs_self h.2)
end

/-! ## Terms -/

mutual
theorem json_of_reads {v : Json} {t : Term} (h : Reads v t) (hv : v.IsWhole) {room : Nat}
    (hroom : v.depth ≤ room) : t.json room = .ok v := by
  cases v with
  | null =>
      obtain rfl := h
      rfl
  | bool b =>
      obtain rfl := h
      cases b <;> rfl
  | int n =>
      obtain rfl := h
      rfl
  | double x => exact hv.elim
  | str s =>
      obtain rfl := h
      rfl
  | arr items =>
      obtain ⟨whole, ts, rfl, hts⟩ := h
      obtain ⟨room, rfl⟩ := Nat.exists_eq_add_one_of_ne_zero (Nat.ne_zero_of_lt hroom)
      simp only [Term.json, jsonItems_of_reads hts hv (Nat.le_of_succ_le_succ hroom)]
      rfl
  | obj members =>
      obtain ⟨whole, ms, rfl, hms⟩ := h
      obtain ⟨room, rfl⟩ := Nat.exists_eq_add_one_of_ne_zero (Nat.ne_zero_of_lt hroom)
      simp only [Term.json, jsonMembers_of_reads hms hv.2 (Nat.le_of_succ_le_succ hroom), bind,
        Except.bind, Table.ofList_of_ascending hv.1]
      rfl

theorem jsonItems_of_reads {vs : List Json} {ts : List Term} (h : ReadsItems vs ts)
    (hvs : AreWhole vs) {room : Nat} (hroom : depthItems vs ≤ room) :
    Term.jsonItems room ts = .ok vs := by
  cases vs with
  | nil =>
      obtain rfl := h
      rfl
  | cons v vs =>
      obtain ⟨u, us, rfl, hu, hus⟩ := h
      obtain ⟨hfirst, hrest⟩ := Nat.max_le.mp hroom
      simp only [Term.jsonItems, json_of_reads hu hvs.1 hfirst,
        jsonItems_of_reads hus hvs.2 hrest]
      rfl

theorem jsonMembers_of_reads {ms : List (String × Json)} {us : List (Token String × Term)}
    (h : ReadsMembers ms us) (hms : HaveWhole ms) {room : Nat} (hroom : depthMembers ms ≤ room) :
    Term.jsonMembers room us = .ok ms := by
  cases ms with
  | nil =>
      obtain rfl := h
      rfl
  | cons m ms =>
      obtain ⟨name, v⟩ := m
      obtain ⟨u, us, rfl, hu, hus⟩ := h
      obtain ⟨hfirst, hrest⟩ := Nat.max_le.mp hroom
      simp only [Term.jsonMembers, json_of_reads hu hms.1 hfirst,
        jsonMembers_of_reads hus hms.2 hrest]
      rfl
end

/-! ## Documents -/

theorem document_of_isWhole {d : Document} (h : (ofDocument d).IsWhole)
    (hdepth : (ofDocument d).depth ≤ depthLimit) :
    document (ofDocument d).prettyText = .ok d := by
  obtain ⟨t, hread, ht⟩ := read_prettyText (readsAs_self h)
  have hjson := json_of_reads ht h hdepth
  obtain ⟨whole, us, rfl, _⟩ := ht
  have hback : (ofDocument d).document? = some d := congrArg some (Table.ofList_rows d)
  simp only [document, hread, hjson, hback, skipSpace, List.dropWhile_nil]

end EdgeAgent.Json
