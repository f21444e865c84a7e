import EdgeAgent.Proofs.Payload.Merge
import Mathlib.Data.List.DropRight
import Mathlib.Data.List.Induction

/-! # What many payloads say together

Of payloads that are merged one after the other, the last one that says something of an
attribute is heard. Only the resources may come from several of them: objects are put
together, and what is no object makes forget all that was told of the resources before.
-/

namespace EdgeAgent

namespace Json

def isObject (v : Json) : Bool := v.document?.isSome

def entry? (name : String) (v : Json) : Option Json := v.document?.bind (·.find? name)

end Json

namespace Payload

/-- What some payloads say of an attribute, one after the other. -/
def told (ps : List Payload) (a : Attribute) : List a.Carrier := ps.filterMap (·.value a)

/-- The objects behind the last value that is none. -/
def lastObjects (vs : List Json) : List Json := vs.rtakeWhile Json.isObject

/-- The last value that is no object. -/
def lastPlain? (vs : List Json) : Option Json := (vs.rdropWhile Json.isObject).getLast?

/-- Under every name, the document has the value of the last object that has one there. -/
def Gathers (d : Document) (objects : List Json) : Prop :=
  ∀ name, d.find? name = (objects.filterMap (Json.entry? name)).getLast?

/-- What is left of the resources that are told one after the other. -/
structure Combined (vs : List Json) (resources : Option Json) : Prop where
  untold : resources = none ↔ vs = []
  plain : lastObjects vs = [] → resources = lastPlain? vs
  /-- The members of the object are in order if those of all objects are. -/
  objects : lastObjects vs ≠ [] → ∃ v d, resources = some v ∧ v.document? = some d ∧
    Gathers d (lastObjects vs) ∧
      ((∀ o ∈ lastObjects vs, ∃ e : Document, o = .ofDocument e) → v = .ofDocument d)

/-! ## One payload after the other -/

theorem mergeAll_concat (ps : List Payload) (q : Payload) :
    mergeAll (ps ++ [q]) = (mergeAll ps).merge q := by
  simp [mergeAll, List.foldl_append]

theorem told_concat (ps : List Payload) (q : Payload) (a : Attribute) :
    told (ps ++ [q]) a = told ps a ++ (q.value a).toList := by
  cases h : q.value a <;> simp [told, List.filterMap_append, h]

theorem gathers_concat {d e : Document} {objects : List Json} {theirs : List (String × Json)}
    (h : Gathers d objects)
    (he : ∀ name, e.find? name = ((Table.ofList theirs).find? name).or (d.find? name)) :
    Gathers e (objects ++ [.obj theirs]) := by
  intro name
  have hentry : Json.entry? name (.obj theirs) = (Table.ofList theirs).find? name := rfl
  rw [he name, h name, List.filterMap_append, List.getLast?_append]
  cases hfound : (Table.ofList theirs).find? name <;> simp [hentry, hfound]

theorem lastPlain?_not_object (vs : List Json) : ∀ v ∈ lastPlain? vs, v.isObject = false := by
  intro v hv
  obtain ⟨hne, hlast⟩ := List.mem_getLast?_eq_getLast hv
  have hnot := List.rdropWhile_last_not Json.isObject vs hne
  rw [hlast]
  exact eq_false_of_ne_true hnot

theorem mergeResources_of_plain {r : Option Json} (h : ∀ v ∈ r, v.isObject = false) (v : Json) :
    mergeResources r (some v) = some v := by
  cases r with
  | none => simp [mergeResources]
  | some mine =>
      have hmine : mine.isObject = false := h mine rfl
      cases mine with
      | obj rows => cases hmine
      | null | bool _ | int _ | double _ | str _ | arr _ => simp [mergeResources]

theorem mergeResources_of_not_object {v : Json} (h : v.isObject = false) (r : Option Json) :
    mergeResources r (some v) = some v := by
  cases v with
  | obj rows => cases h
  | null | bool _ | int _ | double _ | str _ | arr _ => simp [mergeResources]

/-! ## The resources -/

theorem Combined.concat_plain {vs : List Json} {v : Json} (hv : v.isObject = false)
    (r : Option Json) : Combined (vs ++ [v]) (mergeResources r (some v)) := by
  have hnot : ¬ v.isObject = true := ne_true_of_eq_false hv
  have hobjects : lastObjects (vs ++ [v]) = [] := List.rtakeWhile_concat_neg _ _ _ hnot
  have hplain : lastPlain? (vs ++ [v]) = some v := by
    rw [lastPlain?, List.rdropWhile_concat_neg _ _ _ hnot, List.getLast?_concat]
  rw [mergeResources_of_not_object hv]
  exact ⟨by simp, fun _ => hplain.symm, fun hne => absurd hobjects hne⟩

theorem lastObjects_concat (vs : List Json) (theirs : List (String × Json)) :
    lastObjects (vs ++ [.obj theirs]) = lastObjects vs ++ [.obj theirs] :=
  List.rtakeWhile_concat_pos _ _ _ rfl

theorem Combined.concat_first {vs : List Json} {r : Option Json} (h : Combined vs r)
    (hnone : lastObjects vs = []) (theirs : List (String × Json)) :
    Combined (vs ++ [.obj theirs]) (mergeResources r (some (.obj theirs))) := by
  have hobjects : lastObjects (vs ++ [.obj theirs]) = [.obj theirs] := by
    rw [lastObjects_concat, hnone, List.nil_append]
  have hreplaced : mergeResources r (some (.obj theirs)) = some (.obj theirs) := by
    apply mergeResources_of_plain
    rw [h.plain hnone]
    exact lastPlain?_not_object vs
  have hgathers : Gathers (Table.ofList theirs) [.obj theirs] := by
    have hnothing : Gathers Table.empty [] := fun _ => rfl
    exact gathers_concat hnothing fun name => by simp
  have hordered : (∀ o ∈ [Json.obj theirs], ∃ e : Document, o = .ofDocument e) →
      Json.obj theirs = .ofDocument (Table.ofList theirs) := by
    intro hrows
    obtain ⟨e, he⟩ := hrows (.obj theirs) List.mem_cons_self
    cases he
    exact congrArg Json.ofDocument (Table.ofList_rows e).symm
  rw [hreplaced]
  constructor
  case untold => simp
  case plain => simp [hobjects]
  case objects =>
      intro _
      rw [hobjects]
      exact ⟨_, _, rfl, rfl, hgathers, hordered⟩

theorem Combined.concat_next {vs : List Json} {r : Option Json} (h : Combined vs r)
    (hsome : lastObjects vs ≠ []) (theirs : List (String × Json)) :
    Combined (vs ++ [.obj theirs]) (mergeResources r (some (.obj theirs))) := by
  obtain ⟨v, d, hr, hd, hgathers, _⟩ := h.objects hsome
  have hadded : mergeResources r (some (.obj theirs)) =
      some (.ofDocument (d.insertAll theirs)) := by
    cases v with
    | obj mine =>
        have hmine : Table.ofList mine = d := Option.some.inj hd
        simp [hr, ← hmine, mergeResources]
    | null | bool _ | int _ | double _ | str _ | arr _ => cases hd
  have hread : (Json.ofDocument (d.insertAll theirs)).document? = some (d.insertAll theirs) :=
    congrArg some (Table.ofList_rows _)
  rw [hadded]
  constructor
  case untold => simp
  case plain => simp [lastObjects_concat]
  case objects =>
      intro _
      rw [lastObjects_concat]
      exact ⟨_, _, rfl, hread,
        gathers_concat hgathers (Table.find?_insertAll_ofList d theirs), fun _ => rfl⟩

theorem Combined.concat {vs : List Json} {r : Option Json} (h : Combined vs r) (v : Json) :
    Combined (vs ++ [v]) (mergeResources r (some v)) := by
  cases v with
  | obj theirs =>
      by_cases hnone : lastObjects vs = []
      · exact h.concat_first hnone theirs
      · exact h.concat_next hnone theirs
  | null | bool _ | int _ | double _ | str _ | arr _ => exact .concat_plain rfl r

theorem combined_mergeAll (ps : List Payload) :
    Combined (told ps .resources) ((mergeAll ps).value .resources) := by
  induction ps using List.reverseRecOn with
  | nil => exact ⟨⟨fun _ => rfl, fun _ => rfl⟩, fun _ => rfl, fun hne => absurd rfl hne⟩
  | append_singleton ps q ih =>
      have hmerge : ((mergeAll ps).merge q).value .resources =
          mergeResources ((mergeAll ps).value .resources) (q.value .resources) := rfl
      rw [mergeAll_concat, told_concat, hmerge]
      cases q.value .resources with
      | none => simpa [mergeResources] using ih
      | some v => exact ih.concat v

/-- Of every attribute but the resources the last value is heard. The resources are the
last value that is no object, or else hold under every name what the last one of the
objects behind it has there. -/
theorem latest_mergeAll (ps : List Payload) :
    (∀ a, a ≠ .resources → (mergeAll ps).value a = (told ps a).getLast?) ∧
      Combined (told ps .resources) ((mergeAll ps).value .resources) := by
  refine ⟨fun a ha => ?_, combined_mergeAll ps⟩
  induction ps using List.reverseRecOn with
  | nil => rfl
  | append_singleton ps q ih =>
      rw [mergeAll_concat, told_concat, value_merge _ _ ha, ih, List.getLast?_append]
      cases q.value a <;> rfl

/-- A text makes forget what was told before it. -/
example :
    let telling (v : Json) : Payload := put {} .resources v
    ((mergeAll [telling (.obj [("cpu", .int 1), ("disk", .int 1)]), telling (.str "none"),
        telling (.obj [("cpu", .int 2), ("ram", .int 2)]), telling (.obj [("ram", .int 3)])]).value
      .resources).any (· == .obj [("cpu", .int 2), ("ram", .int 3)]) = true := by
  decide +kernel

end Payload
end EdgeAgent
