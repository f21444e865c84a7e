import EdgeAgent.Payload.Basic
import EdgeAgent.Proofs.Data.Table

/-! # Merging payloads

Payloads that do not contradict each other can be merged in any order, and what one
of them says is found in the whole. Only the resources are told by several payloads
at once, each of which has sections of its own there.
-/

namespace EdgeAgent.Payload

/-- The section of a name among the resources. -/
def section? (p : Payload) (name : String) : Option Json :=
  (p.value .resources).bind (Json.member? name)

/-- The resources, if there are any, are sections under ascending names. -/
def Sectioned (p : Payload) : Prop :=
  ∀ v, p.value .resources = some v → ∃ d : Document, v = .ofDocument d

/-- No attribute has two values, and neither has a section of the resources. -/
structure Consistent (p q : Payload) : Prop where
  values : ∀ a, a ≠ .resources → ∀ u v, p.value a = some u → q.value a = some v → u = v
  sections : ∀ name u v, p.section? name = some u → q.section? name = some v → u = v

theorem Consistent.refl (p : Payload) : p.Consistent p :=
  ⟨fun _ _ _ _ hu hv => Option.some.inj (hu.symm.trans hv),
    fun _ _ _ hu hv => Option.some.inj (hu.symm.trans hv)⟩

theorem Consistent.symm {p q : Payload} (h : p.Consistent q) : q.Consistent p :=
  ⟨fun a ha u v hu hv => (h.values a ha v u hv hu).symm,
    fun name u v hu hv => (h.sections name v u hv hu).symm⟩

def mergeAll (ps : List Payload) : Payload := ps.foldl merge {}

/-! ## What a payload says -/

/-- Nothing is said but of some attributes, and of some sections of the resources. -/
structure Within (p : Payload) (attributes : List Attribute) (sections : List String) : Prop where
  values : ∀ a, a ≠ .resources → a ∉ attributes → p.value a = none
  resources : ∀ v, p.value .resources = some v →
    ∃ d : Document, v = .ofDocument d ∧ ∀ name, name ∉ sections → d.find? name = none

variable {p : Payload} {attributes : List Attribute} {sections : List String}

theorem within_empty : Within {} attributes sections :=
  ⟨fun _ _ _ => rfl, fun _ h => nomatch h⟩

theorem Within.set (h : p.Within attributes sections) {a : Attribute} (ha : a ∈ attributes)
    (hne : a ≠ .resources) (v : Option a.Carrier) : (p.set a v).Within attributes sections where
  values b hb hnot := by
    have hab : a ≠ b := fun heq => hnot (heq ▸ ha)
    rw [value_set_of_ne p v hab]
    exact h.values b hb hnot
  resources u hu := h.resources u ((value_set_of_ne p v hne).symm.trans hu)

theorem Within.putSections (h : p.Within attributes sections) {pairs : List (String × Json)}
    (hpairs : ∀ name ∈ pairs.map (·.1), name ∈ sections) :
    (p.put .resources (.ofDocument (Table.ofList pairs))).Within attributes sections where
  values a ha hnot := (value_set_of_ne p _ (Ne.symm ha)).trans (h.values a ha hnot)
  resources v hv := by
    refine ⟨Table.ofList pairs, ?_, ?_⟩
    · exact Option.some.inj (hv.symm.trans (value_set_self p _ _))
    · intro name hname
      exact Table.find?_insertAll_of_notMem (fun hmem => hname (hpairs name hmem)) Table.empty

theorem Within.sectioned (h : p.Within attributes sections) : p.Sectioned := by
  intro v hv
  obtain ⟨d, hd, _⟩ := h.resources v hv
  exact ⟨d, hd⟩

theorem Within.section?_of_notMem (h : p.Within attributes sections) {name : String}
    (hname : name ∉ sections) : p.section? name = none := by
  unfold section?
  cases hv : p.value .resources with
  | none => rfl
  | some v =>
      obtain ⟨d, rfl, hd⟩ := h.resources v hv
      exact hd name hname

theorem Within.consistent {q : Payload} {others : List Attribute} {names : List String}
    (hp : p.Within attributes sections) (hq : q.Within others names)
    (hattributes : ∀ a ∈ attributes, a ∉ others) (hsections : ∀ s ∈ sections, s ∉ names) :
    p.Consistent q where
  values a ha u v hu hv := by
    by_cases h : a ∈ attributes
    · simp [hq.values a ha (hattributes a h)] at hv
    · simp [hp.values a ha h] at hu
  sections name u v hu hv := by
    by_cases h : name ∈ sections
    · simp [hq.section?_of_notMem (hsections name h)] at hv
    · simp [hp.section?_of_notMem h] at hu

/-! ## Two payloads -/

theorem value_merge (p q : Payload) {a : Attribute} (h : a ≠ .resources) :
    (p.merge q).value a = (q.value a).or (p.value a) := by
  cases a <;> first | rfl | exact absurd rfl h

theorem value_merge_of_some (p : Payload) {q : Payload} {a : Attribute} {v : a.Carrier}
    (ha : a ≠ .resources) (h : q.value a = some v) : (p.merge q).value a = some v := by
  rw [value_merge p q ha, h, Option.some_or]

theorem member?_ofDocument (d : Document) (name : String) :
    (Json.ofDocument d).member? name = d.find? name := rfl

theorem section?_merge_of_some (p : Payload) {q : Payload} {name : String} {v : Json}
    (hq : q.Sectioned) (h : q.section? name = some v) :
    (p.merge q).section? name = some v := by
  have hmerge : (p.merge q).value .resources =
      mergeResources (p.value .resources) (q.value .resources) := rfl
  unfold section? at h ⊢
  rw [hmerge]
  cases hr : q.value .resources with
  | none => simp [hr] at h
  | some r =>
      obtain ⟨d, rfl⟩ := hq r hr
      rw [hr, Option.bind_some, member?_ofDocument] at h
      cases hp : p.value .resources with
      | none => exact h
      | some mine =>
          cases mine with
          | obj rows =>
              have hfound : ((Table.ofList rows).insertAll d.rows).find? name = some v := by
                rw [Table.find?_insertAll_rows, h, Option.some_or]
              exact hfound
          | null | bool _ | int _ | double _ | str _ | arr _ => exact h

/-! ## The order of merging -/

/-- Sections that do not contradict each other are put in place in either order. -/
theorem insertAll_right_comm {d e : Document}
    (h : ∀ name u v, d.find? name = some u → e.find? name = some v → u = v) (t : Document) :
    (t.insertAll d.rows).insertAll e.rows = (t.insertAll e.rows).insertAll d.rows := by
  apply Table.ext_find?
  intro name
  simp only [Table.find?_insertAll_rows]
  cases hd : d.find? name with
  | none => simp
  | some u =>
      cases he : e.find? name with
      | none => simp
      | some v => simp [h name u v hd he]

theorem mergeResources_right_comm {p q : Payload} (hp : p.Sectioned) (hq : q.Sectioned)
    (h : p.Consistent q) (r : Option Json) :
    mergeResources (mergeResources r (p.value .resources)) (q.value .resources) =
      mergeResources (mergeResources r (q.value .resources)) (p.value .resources) := by
  cases hd : p.value .resources with
  | none => simp [mergeResources]
  | some u =>
      cases he : q.value .resources with
      | none => simp [mergeResources]
      | some v =>
          obtain ⟨d, rfl⟩ := hp u hd
          obtain ⟨e, rfl⟩ := hq v he
          have hsections : ∀ name u v, d.find? name = some u → e.find? name = some v → u = v := by
            intro name u v hu hv
            refine h.sections name u v ?_ ?_
            · rw [section?, hd, Option.bind_some, member?_ofDocument, hu]
            · rw [section?, he, Option.bind_some, member?_ofDocument, hv]
          have hcomm := insertAll_right_comm hsections
          have hfirst : d.insertAll e.rows = e.insertAll d.rows := by
            have h := hcomm Table.empty
            rwa [← Table.ofList, Table.ofList_rows, ← Table.ofList, Table.ofList_rows] at h
          -- Whatever is not an object gives way to the first one that is merged into it.
          cases r with
          | none => simp [mergeResources, Json.ofDocument, Table.ofList_rows, hfirst]
          | some x =>
              cases x with
              | obj rows =>
                  simp only [mergeResources, Json.ofDocument, Table.ofList_rows]
                  rw [hcomm]
              | null | bool _ | int _ | double _ | str _ | arr _ =>
                  simp [mergeResources, Json.ofDocument, Table.ofList_rows, hfirst]

theorem merge_right_comm {p q : Payload} (hp : p.Sectioned) (hq : q.Sectioned)
    (h : p.Consistent q) (r : Payload) : (r.merge p).merge q = (r.merge q).merge p := by
  have hvalue : ∀ a, ((r.merge p).merge q).value a = ((r.merge q).merge p).value a := by
    intro a
    by_cases ha : a = .resources
    · subst ha
      exact mergeResources_right_comm hp hq h (r.value .resources)
    · simp only [value_merge _ _ ha]
      cases hu : p.value a with
      | none => simp
      | some u =>
          cases hv : q.value a with
          | none => simp
          | some v => simp [h.values a ha u v hu hv]
  exact congrArg Payload.mk (funext hvalue)

/-! ## Many payloads -/

/-- Payloads none of which contradicts another one. -/
structure Compatible (ps : List Payload) : Prop where
  sectioned : ∀ p ∈ ps, p.Sectioned
  consistent : ∀ p ∈ ps, ∀ q ∈ ps, p.Consistent q

theorem Compatible.mergeAll_perm {ps qs : List Payload} (h : Compatible ps) (hperm : ps.Perm qs) :
    mergeAll ps = mergeAll qs :=
  hperm.foldl_eq'
    (fun p hp q hq r =>
      merge_right_comm (h.sectioned p hp) (h.sectioned q hq) (h.consistent p hp q hq) r) {}

theorem Compatible.mergeAll_eq_merge {ps : List Payload} (h : Compatible ps) {p : Payload}
    (hp : p ∈ ps) : ∃ rest : Payload, mergeAll ps = rest.merge p := by
  obtain ⟨before, behind, rfl⟩ := List.append_of_mem hp
  have hperm : (before ++ p :: behind).Perm ((before ++ behind) ++ [p]) :=
    List.perm_middle.trans (List.perm_append_singleton p _).symm
  refine ⟨mergeAll (before ++ behind), ?_⟩
  rw [h.mergeAll_perm hperm, mergeAll, List.foldl_append]
  rfl

theorem Compatible.value_mergeAll {ps : List Payload} (h : Compatible ps) {p : Payload}
    (hp : p ∈ ps) {a : Attribute} (ha : a ≠ .resources) {v : a.Carrier} (hv : p.value a = some v) :
    (mergeAll ps).value a = some v := by
  obtain ⟨rest, hrest⟩ := h.mergeAll_eq_merge hp
  rw [hrest]
  exact value_merge_of_some rest ha hv

theorem Compatible.section?_mergeAll {ps : List Payload} (h : Compatible ps) {p : Payload}
    (hp : p ∈ ps) {name : String} {v : Json} (hv : p.section? name = some v) :
    (mergeAll ps).section? name = some v := by
  obtain ⟨rest, hrest⟩ := h.mergeAll_eq_merge hp
  rw [hrest]
  exact section?_merge_of_some rest (h.sectioned p hp) hv

end EdgeAgent.Payload
