import EdgeAgent.Proofs.Json.Record
import EdgeAgent.Proofs.Payload.Codec

/-! # Payloads are read as they were written

What is read from the document of a payload is the payload again. What is written of a
payload that was read is the document, without the names that are no attributes and
without nulls. Only the state has a second written form, which is not kept.
-/

namespace EdgeAgent

/-! ## Statement -/

/-- The name of a state may also be the only member of an object, with null. -/
def EdgeState.plain : Json → Json
  | .obj [(s, .null)] => .str s
  | v => v

/-- The values of the attributes in a document, as far as they are not null. -/
def Document.known (d : Document) : Document :=
  d.filter fun name v => Attribute.all.any (·.name == name) && !v.isNull

/-- A null document would be taken for none. -/
structure Payload.NullFree (p : Payload) : Prop where
  resources : p.value .resources ≠ some .null
  vulnerabilities : p.value .vulnerabilities ≠ some .null
  network : p.value .network ≠ some .null
  coeResources : p.value .coeResources ≠ some .null

/-! ## Values -/

namespace Kind

/-- What is kept of a written value of a kind. -/
def plain : Kind → Json → Json
  | .state => EdgeState.plain
  | _ => id

theorem encode_state {s : String} (h : (EdgeState.all.map EdgeState.name).contains s = true) :
    (Kind.state.decode? (.str s)).map Kind.state.encode = some (.str s) := by
  obtain ⟨e, _, rfl⟩ := List.mem_map.mp (List.contains_iff_mem.mp h)
  have hread : Kind.state.decode? (.str e.name) = some e := e.ofName?_name
  rw [hread]
  rfl

theorem oneOf_eq_some {names : List String} {v w : Json}
    (h : (Shape.oneOf names).ofJson v = some w) :
    ∃ s, names.contains s = true ∧ w = .str s ∧ (v = .str s ∨ v = .obj [(s, .null)]) := by
  unfold Shape.ofJson at h
  split at h
  case h_5 heq =>
      obtain rfl := Shape.oneOf.inj heq
      obtain ⟨hname, hw⟩ := Option.ite_none_right_eq_some.mp h
      exact ⟨_, hname, (Option.some.inj hw).symm, .inl rfl⟩
  case h_6 heq =>
      obtain rfl := Shape.oneOf.inj heq
      obtain ⟨hname, hw⟩ := Option.ite_none_right_eq_some.mp h
      exact ⟨_, hname, (Option.some.inj hw).symm, .inr rfl⟩
  all_goals contradiction

theorem encode_decode {k : Kind} {v w : Json} (h : k.shape.ofJson v = some w) :
    (k.decode? w).map k.encode = some (k.plain v) := by
  cases k with
  | state =>
      obtain ⟨s, hname, rfl, rfl | rfl⟩ := oneOf_eq_some h
      · exact encode_state hname
      · exact encode_state hname
  | text =>
      cases v with
      | str s =>
          obtain rfl := Option.some.inj h
          rfl
      | _ => cases h
  | texts =>
      cases v with
      | arr items =>
          obtain ⟨ss, hss, rfl⟩ := Option.map_eq_some_iff.mp h
          rw [texts?_eq_some hss]
          have hread : Kind.texts.decode? (Json.texts ss) = some ss := texts?_texts ss
          rw [hread]
          rfl
      | _ => cases h
  | document =>
      obtain rfl := Option.some.inj h
      rfl
  | documents =>
      cases v with
      | arr items =>
          obtain rfl := Option.some.inj h
          rfl
      | _ => cases h

theorem decode_encode (k : Kind) (x : k.Carrier) :
    k.shape.ofJson (k.encode x) = some (k.encode x) ∧ k.decode? (k.encode x) = some x := by
  cases k with
  | state =>
      refine ⟨?_, x.ofName?_name⟩
      cases x <;> rfl
  | text | document | documents => exact ⟨rfl, rfl⟩
  | texts =>
      refine ⟨?_, texts?_texts x⟩
      have hread : Json.texts? (Json.texts x) = some x := texts?_texts x
      show (Json.texts? (Json.texts x)).map Json.texts = _
      rw [hread]
      rfl

theorem encode_ne_null {k : Kind} (h : k ≠ .document) (x : k.Carrier) : k.encode x ≠ .null := by
  cases k with
  | document => exact (h rfl).elim
  | _ => exact nofun

end Kind

/-! ## Members -/

namespace Attribute

theorem ofMember_of_ne (a : Attribute) {v : Json} (hv : v ≠ .null) :
    a.field.ofMember (some v) = (a.kind.shape.ofJson v).map some := by
  cases v with
  | null => exact (hv rfl).elim
  | _ => rfl

theorem find?_fields (f : Field) (h : f ∈ Payload.fields) :
    Payload.fields.find? (·.name == f.name) = some f := by
  obtain ⟨a, -, rfl⟩ := List.mem_map.mp h
  cases a <;> rfl

theorem getElem?_index (a : Attribute) : all[a.index]? = some a :=
  List.getElem?_idxOf (mem_all a)

end Attribute

namespace Payload

theorem ofJson?_eq_some_iff {d : Document} {p : Payload} :
    ofJson? (.ofDocument d) = some p ↔
      ∀ a : Attribute, ∃ v, a.field.ofMember (d.find? a.name) = some v ∧
        p.value a = v.bind a.kind.decode? := by
  have hrow : Record.ofJson fields (.ofDocument d) =
      fields.mapM fun f => f.ofMember (d.find? f.name) :=
    Record.ofJson_obj Attribute.find?_fields (Table.distinct_rows d)
  rw [ofJson?, hrow, Option.map_eq_some_iff]
  simp only [Record.mapM_eq_some_iff, fields, List.forall₂_map_left_iff]
  constructor
  · rintro ⟨row, hread, rfl⟩ a
    obtain ⟨hlength, hget⟩ := List.forall₂_iff_get.mp hread
    obtain ⟨hi, hattribute⟩ := List.getElem?_eq_some_iff.mp a.getElem?_index
    have hmember := hget a.index hi (hlength ▸ hi)
    have hat : row[a.index]? = some (row.get ⟨a.index, hlength ▸ hi⟩) :=
      List.getElem?_eq_getElem _
    refine ⟨row.get ⟨a.index, hlength ▸ hi⟩, ?_, ?_⟩
    · have hget : Attribute.all.get ⟨a.index, hi⟩ = a := hattribute
      rw [hget] at hmember
      exact hmember
    · simp only [ofRow, Row.at?, hat, Option.join_some]
  · intro h
    choose v hmember hvalue using h
    refine ⟨Attribute.all.map v, ?_, ?_⟩
    · exact List.forall₂_map_right_iff.mpr (List.forall₂_same.mpr fun a _ => hmember a)
    · have hat (a : Attribute) : Row.at? (Attribute.all.map v) a.index = v a := by
        rw [Row.at?, List.getElem?_map, a.getElem?_index]
        rfl
      obtain ⟨value⟩ := p
      simp only [ofRow, hat]
      congr
      funext a
      exact (hvalue a).symm

theorem NullFree.encode_ne_null {p : Payload} (h : p.NullFree) {a : Attribute} {x : a.Carrier}
    (hx : p.value a = some x) : a.kind.encode x ≠ .null := by
  by_cases hkind : a.kind = .document
  · cases a with
    | resources => exact fun hnull => h.resources (hx.trans (congrArg some hnull))
    | vulnerabilities => exact fun hnull => h.vulnerabilities (hx.trans (congrArg some hnull))
    | network => exact fun hnull => h.network (hx.trans (congrArg some hnull))
    | coeResources => exact fun hnull => h.coeResources (hx.trans (congrArg some hnull))
    | _ => cases hkind
  · exact Kind.encode_ne_null hkind x

theorem NullFree.ofJson?_toJson {p : Payload} (h : p.NullFree) : ofJson? p.toJson = some p := by
  refine ofJson?_eq_some_iff.mpr fun a => ?_
  rw [find?_toDocument]
  cases hvalue : p.value a with
  | none => exact ⟨none, rfl, rfl⟩
  | some x =>
      obtain ⟨htaken, hread⟩ := a.kind.decode_encode x
      refine ⟨some (a.kind.encode x), ?_, ?_⟩
      · rw [Option.map_some, a.ofMember_of_ne (h.encode_ne_null hvalue), htaken, Option.map_some]
      · rw [Option.bind_some, hread]

theorem find?_known (d : Document) (a : Attribute) :
    d.known.find? a.name = (d.find? a.name).filter (!·.isNull) := by
  have hname : Attribute.all.any (·.name == a.name) = true :=
    List.any_eq_true.mpr ⟨a, Attribute.mem_all a, beq_self_eq_true _⟩
  simp only [Document.known, Table.find?_filter, hname, Bool.true_and]

theorem find?_known_of_ne (d : Document) {name : String} (h : ∀ a : Attribute, a.name ≠ name) :
    d.known.find? name = none := by
  have hname : Attribute.all.any (·.name == name) = false := by
    simpa using fun a _ => h a
  simp [Document.known, Table.find?_filter, hname]

theorem encode_of_ofMember {a : Attribute} {member v : Option Json}
    (h : a.field.ofMember member = some v) :
    (v.bind a.kind.decode?).map a.kind.encode = (member.filter (!·.isNull)).map a.kind.plain := by
  cases member with
  | none =>
      obtain rfl := Option.some.inj h
      rfl
  | some j =>
      by_cases hnull : j = .null
      · subst hnull
        obtain rfl := Option.some.inj h
        rfl
      · rw [a.ofMember_of_ne hnull] at h
        obtain ⟨w, htaken, rfl⟩ := Option.map_eq_some_iff.mp h
        have hkept : (some j).filter (!·.isNull) = some j := by
          cases j with
          | null => exact (hnull rfl).elim
          | _ => rfl
        rw [hkept, Option.map_some, Option.bind_some]
        exact Kind.encode_decode htaken

theorem plain_eq (a : Attribute) (v : Json) :
    a.kind.plain v = if a.name = Attribute.status.name then EdgeState.plain v else v := by
  cases a <;> rfl

theorem toDocument_of_ofJson? {d : Document} {p : Payload} (h : ofJson? (.ofDocument d) = some p) :
    p.toDocument = d.known.modify Attribute.status.name EdgeState.plain := by
  refine Table.ext_find? fun name => ?_
  rw [Table.modify, Table.find?_mapRows]
  by_cases hname : ∃ a : Attribute, a.name = name
  · obtain ⟨a, rfl⟩ := hname
    obtain ⟨v, hmember, hvalue⟩ := ofJson?_eq_some_iff.mp h a
    rw [find?_toDocument, hvalue, encode_of_ofMember hmember, find?_known]
    exact congrArg (Option.map · _) (funext (plain_eq a))
  · have hother := not_exists.mp hname
    rw [find?_toDocument_of_ne p hother, find?_known_of_ne d hother]
    rfl

/-! ## Both ways -/

/-- Writing and reading undo each other, up to what a document says besides. -/
theorem written_and_read (p : Payload) :
    (p.NullFree → ofJson? p.toJson = some p) ∧
      ∀ d : Document, ofJson? (.ofDocument d) = some p →
        p.toDocument = d.known.modify Attribute.status.name EdgeState.plain :=
  ⟨fun h => h.ofJson?_toJson, fun _ h => toDocument_of_ofJson? h⟩

/-! ## A document with more in it -/

/-- A state in its second form, a null, and a name that is no attribute. -/
def degradedDocument : Document :=
  Table.ofList [("colour", .str "red"), ("ip", .null), ("resources", .obj [("cpu", .null)]),
    ("status", .obj [("DEGRADED", .null)])]

def degradedPayload : Payload :=
  (empty.put .resources (.obj [("cpu", .null)])).put .status .degraded

theorem read_degraded : ofJson? (.ofDocument degradedDocument) = some degradedPayload :=
  congrArg (fun value => some (Payload.mk value)) (funext fun a => by cases a <;> rfl)

theorem written_and_read_degraded :
    degradedPayload.NullFree ∧ ofJson? (.ofDocument degradedDocument) = some degradedPayload ∧
      ofJson? degradedPayload.toJson = some degradedPayload ∧
      degradedPayload.toDocument =
        degradedDocument.known.modify Attribute.status.name EdgeState.plain := by
  have hfree : degradedPayload.NullFree := ⟨nofun, nofun, nofun, nofun⟩
  obtain ⟨hback, hagain⟩ := written_and_read degradedPayload
  exact ⟨hfree, read_degraded, hback hfree, hagain degradedDocument read_degraded⟩

/-- The second form of a state is not written again. -/
theorem not_written_as_read :
    ¬ ∀ (d : Document) (p : Payload),
      ofJson? (.ofDocument d) = some p → p.toDocument = d.known := by
  intro h
  have hsame := h degradedDocument degradedPayload read_degraded
  have hstate := congrArg (·.find? Attribute.status.name) hsame
  cases hstate

end Payload
end EdgeAgent
