import EdgeAgent.Proofs.Data.Table
import EdgeAgent.Proofs.Json.ReadsBack

/-! # Records are decoded from written objects

An object whose members are fields of a record, each at most once, is decoded to
the row that has the member's value in the place of every field. An object that is a
value already is decoded field by field.
-/

namespace EdgeAgent

open Json

/-! ## Lists of texts -/

theorem texts?_texts (ss : List String) : (Json.texts ss).texts? = some ss := by
  simp only [Json.texts, Json.texts?]
  induction ss with
  | nil => rfl
  | cons s ss ih =>
      rw [List.map_cons, List.mapM_cons, ih]
      rfl

theorem texts?_eq_some {items : List Json} {ss : List String}
    (h : Json.texts? (.arr items) = some ss) : items = ss.map .str := by
  induction items generalizing ss with
  | nil =>
      obtain rfl := Option.some.inj h
      rfl
  | cons v items ih =>
      obtain ⟨s, hs, rest, hrest, rfl⟩ : ∃ s, v.text? = some s ∧
          ∃ rest, Json.texts? (.arr items) = some rest ∧ s :: rest = ss := by
        simpa [Json.texts?, List.mapM_cons, Option.bind_eq_some_iff] using h
      cases v with
      | str t =>
          obtain rfl := Option.some.inj hs
          rw [ih hrest, List.map_cons]
      | _ => cases hs

/-! ## Fields -/

/-- The field decodes every term of the value to the value. -/
def Field.Takes (f : Field) (v : Json) : Prop :=
  ∀ t, Reads v t → f.ofTerm (depthLimit - 1) t = .ok (some v)

theorem takes_str {f : Field} (hf : f.shape = .text) (s : String) : f.Takes (.str s) := by
  intro t ht
  simp only [Reads] at ht
  subst ht
  cases hn : f.nullable <;> simp only [Field.ofTerm, hn, hf] <;> rfl

theorem textsOf_of_reads {ss : List String} {ts : List Term} (h : ReadsItems (ss.map .str) ts) :
    Term.textsOf ts = .ok (ss.map .str) := by
  induction ss generalizing ts with
  | nil =>
      simp only [List.map_nil, ReadsItems] at h
      rw [h]
      rfl
  | cons s ss ih =>
      simp only [List.map_cons, ReadsItems, Reads] at h
      obtain ⟨_, us, rfl, rfl, hus⟩ := h
      simp only [Term.textsOf, ih hus]
      rfl

theorem takes_texts {f : Field} (hf : f.shape = .texts) (ss : List String) :
    f.Takes (Json.texts ss) := by
  intro t ht
  simp only [Json.texts, Reads] at ht
  obtain ⟨whole, ts, rfl, hts⟩ := ht
  have htexts := textsOf_of_reads hts
  cases hn : f.nullable <;> simp only [Field.ofTerm, hn, hf, Term.ofShape, htexts] <;> rfl

/-- What a field makes of its member in an object, if there is one. -/
def Field.ofMember (f : Field) : Option Json → Option (Option Json)
  | some v => f.ofJson v
  | none => if f.absence = .refused then none else some none

namespace Record

/-! ## Objects -/

theorem membersOfTerm_of_reads {fields : List Field} {ms : List (String × Json)}
    {us : List (Token String × Term)} (h : ReadsMembers ms us) (hd : Table.Distinct ms)
    (hms : ∀ m ∈ ms, ∃ f, fields.find? (·.name == m.1) = some f ∧ f.Takes m.2) (seen : Seen)
    (hseen : ∀ m ∈ ms, Table.lookRows m.1 seen = none) :
    membersOfTerm (depthLimit - 1) fields us seen =
      .ok ((ms.map fun m => (m.1, some m.2)).reverse ++ seen) := by
  induction ms generalizing us seen with
  | nil =>
      simp only [ReadsMembers] at h
      rw [h]
      rfl
  | cons m ms ih =>
      obtain ⟨n, v⟩ := m
      simp only [ReadsMembers] at h
      obtain ⟨u, us, rfl, hu, hus⟩ := h
      obtain ⟨hne, hd⟩ := List.pairwise_cons.mp hd
      obtain ⟨f, hf, htakes⟩ := hms (n, v) (by simp)
      have hfresh : Table.lookRows n seen = none := hseen (n, v) (by simp)
      have hread := htakes u hu
      have hrest := ih hus hd (fun m hm => hms m (List.mem_cons_of_mem _ hm)) ((n, some v) :: seen)
        fun m hm => by
          have hother : n ≠ m.1 := hne m hm
          simp [Table.lookRows, hother, hseen m (List.mem_cons_of_mem _ hm)]
      have hstep : membersOfTerm (depthLimit - 1) fields ((⟨.ok n, none⟩, u) :: us) seen =
          membersOfTerm (depthLimit - 1) fields us ((n, some v) :: seen) := by
        have hname : Token.read ⟨.ok n, none⟩ = .ok n := rfl
        rw [membersOfTerm, hname]
        simp [bind, Except.bind, hf, hfresh, hread]
      rw [hstep, hrest]
      simp

theorem close_eq {fields : List Field} {seen : Seen} {ms : List (String × Json)}
    (hseen : ∀ name, Table.lookRows name seen = (Table.lookRows name ms).map some)
    (hthere : ∀ f ∈ fields, f.absence = .refused → (Table.lookRows f.name ms).isSome) :
    close fields seen = some (fields.map fun f => Table.lookRows f.name ms) := by
  unfold close
  induction fields with
  | nil => rfl
  | cons f fields ih =>
      rw [List.mapM_cons, ih fun g hg => hthere g (List.mem_cons_of_mem _ hg), hseen]
      cases hv : Table.lookRows f.name ms with
      | some v => simp [hv]
      | none =>
          have hoptional : f.absence ≠ .refused := by
            intro hr
            simpa [hv] using hthere f (by simp) hr
          simp [hv, hoptional]

theorem parseRecord_prettyText (fields : List Field) {ms : List (String × Json)}
    (hv : ReadsBack (.obj ms)) (hd : Table.Distinct ms)
    (hms : ∀ m ∈ ms, ∃ f, fields.find? (·.name == m.1) = some f ∧ f.Takes m.2)
    (hthere : ∀ f ∈ fields, f.absence = .refused → (Table.lookRows f.name ms).isSome) :
    Json.parseRecord fields (Json.obj ms).prettyText =
      .ok (fields.map fun f => Table.lookRows f.name ms) := by
  obtain ⟨t, hread, ht⟩ := read_prettyText hv.readsAs
  obtain ⟨whole, us, rfl, hus⟩ := ht
  have hmembers := membersOfTerm_of_reads hus hd hms [] (fun _ _ => rfl)
  rw [List.append_nil] at hmembers
  have hclose : close fields (ms.map fun m => (m.1, some m.2)).reverse =
      some (fields.map fun f => Table.lookRows f.name ms) := by
    have hpairs : Table.Distinct (ms.map fun m => (m.1, some m.2)) := List.pairwise_map.mpr hd
    refine close_eq (fun name => ?_) hthere
    rw [Table.lookRows_reverse hpairs]
    exact Table.lookRows_map (fun _ v => some v) name ms
  simp [Json.parseRecord, Json.decode, hread, Record.ofTerm, hmembers, hclose, Term.proceed, bind,
    Except.bind, pure, Except.pure, Reader.skipSpace]

/-! ## Objects that are values already -/

theorem lookRows_membersOfJson {fields : List Field} {f : Field}
    (hf : fields.find? (·.name == f.name) = some f) {ms : List (String × Json)} {seen : Seen}
    (h : membersOfJson fields ms = some seen) :
    (Table.lookRows f.name seen).map some = (Table.lookRows f.name ms).map f.ofJson := by
  induction ms generalizing seen with
  | nil =>
      obtain rfl := Option.some.inj h
      rfl
  | cons m ms ih =>
      obtain ⟨n, v⟩ := m
      rw [membersOfJson] at h
      split at h
      · rename_i hunknown
        have hother : n ≠ f.name := by
          rintro rfl
          cases hunknown.symm.trans hf
        rw [Table.lookRows, if_neg hother]
        exact ih h
      · rename_i g hg
        obtain ⟨x, hx, seen', hseen, rfl⟩ : ∃ x, g.ofJson v = some x ∧
            ∃ seen', membersOfJson fields ms = some seen' ∧ (n, x) :: seen' = seen := by
          simpa [Option.bind_eq_some_iff] using h
        by_cases hn : n = f.name
        · subst hn
          obtain rfl := Option.some.inj (hf.symm.trans hg)
          simp [Table.lookRows, hx]
        · simp only [Table.lookRows, if_neg hn]
          exact ih hseen

/-- A member that its field refuses stands among those that cannot be read. -/
theorem exists_refused {fields : List Field} {ms : List (String × Json)}
    (h : membersOfJson fields ms = none) :
    ∃ m ∈ ms, ∃ f, fields.find? (·.name == m.1) = some f ∧ f.ofJson m.2 = none := by
  induction ms with
  | nil => cases h
  | cons m ms ih =>
      obtain ⟨n, v⟩ := m
      rw [membersOfJson] at h
      split at h
      · obtain ⟨m, hm, hrefused⟩ := ih h
        exact ⟨m, List.mem_cons_of_mem _ hm, hrefused⟩
      · rename_i f hf
        cases hv : f.ofJson v with
        | none => exact ⟨(n, v), List.mem_cons_self, f, hf, hv⟩
        | some x =>
            have hrest : membersOfJson fields ms = none := by
              cases hseen : membersOfJson fields ms with
              | none => rfl
              | some seen => simp [hv, hseen] at h
            obtain ⟨m, hm, hrefused⟩ := ih hrest
            exact ⟨m, List.mem_cons_of_mem _ hm, hrefused⟩

theorem mapM_congr {α β : Type} {g h : α → Option β} {xs : List α} (hsame : ∀ x ∈ xs, g x = h x) :
    xs.mapM g = xs.mapM h := by
  induction xs with
  | nil => rfl
  | cons x xs ih =>
      rw [List.mapM_cons, List.mapM_cons, hsame x List.mem_cons_self,
        ih fun y hy => hsame y (List.mem_cons_of_mem _ hy)]

theorem mapM_eq_some_iff {α β : Type} {g : α → Option β} {xs : List α} {ys : List β} :
    xs.mapM g = some ys ↔ List.Forall₂ (fun x y => g x = some y) xs ys := by
  induction xs generalizing ys with
  | nil => simp [eq_comm]
  | cons x xs ih =>
      simp only [List.mapM_cons, Option.bind_eq_bind, Option.bind_eq_some_iff, ih,
        List.forall₂_cons_left_iff]
      constructor
      · rintro ⟨y, hy, ys', hys, h⟩
        exact ⟨y, ys', hy, hys, (Option.some.inj h).symm⟩
      · rintro ⟨y, ys', hy, hys, rfl⟩
        exact ⟨y, hy, ys', hys, rfl⟩

theorem mapM_eq_none {α β : Type} {g : α → Option β} {xs : List α} {x : α} (hx : x ∈ xs)
    (h : g x = none) : xs.mapM g = none := by
  induction xs with
  | nil => cases hx
  | cons y ys ih =>
      rw [List.mapM_cons]
      rcases List.mem_cons.mp hx with rfl | hx
      · rw [h]
        rfl
      · rw [ih hx]
        cases g y <;> rfl

theorem ofJson_obj {fields : List Field}
    (hfields : ∀ f ∈ fields, fields.find? (·.name == f.name) = some f)
    {ms : List (String × Json)} (hd : Table.Distinct ms) :
    Record.ofJson fields (.obj ms) =
      fields.mapM fun f => f.ofMember (Table.lookRows f.name ms) := by
  rw [Record.ofJson]
  cases h : membersOfJson fields ms with
  | none =>
      obtain ⟨⟨n, v⟩, hm, f, hf, hrefused⟩ := exists_refused h
      have hname : f.name = n := by simpa using List.find?_some hf
      have hmember : f.ofMember (Table.lookRows f.name ms) = none := by
        rw [hname, Table.lookRows_of_mem hd hm]
        exact hrefused
      exact (mapM_eq_none (List.mem_of_find?_eq_some hf) hmember).symm
  | some seen =>
      rw [Option.bind_some, close]
      refine mapM_congr fun f hf => ?_
      have hlook := lookRows_membersOfJson (hfields f hf) h
      cases hm : Table.lookRows f.name ms with
      | none =>
          rw [hm, Option.map_none, Option.map_eq_none_iff] at hlook
          rw [hlook]
          rfl
      | some v =>
          rw [hm, Option.map_some] at hlook
          obtain ⟨x, hx, hv⟩ := Option.map_eq_some_iff.mp hlook
          rw [hx]
          exact hv

end Record
end EdgeAgent
