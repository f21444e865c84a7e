import EdgeAgent.Data.Table

/-! # Tables and lists of pairs

Pairs of distinct names that are put into a table are all found there, and what
the table held under other names stays. The rows of a table are such pairs.
-/

namespace EdgeAgent.Table

universe u v

variable {α : Type u}

/-- No name occurs twice. -/
abbrev Distinct (pairs : List (String × α)) : Prop := pairs.Pairwise fun a b => a.1 ≠ b.1

theorem distinct_rows (t : Table α) : Distinct t.rows := by
  refine t.ascending.imp ?_
  intro a b hlt heq
  exact String.lt_irrefl b.1 (heq ▸ hlt)

/-! ## Rows -/

theorem lookRows_tail {p : String × α} {rest : List (String × α)} (h : Distinct (p :: rest)) :
    lookRows p.1 rest = none :=
  lookRows_eq_none fun r hr he => (List.pairwise_cons.mp h).1 r hr he.symm

theorem mem_of_lookRows {name : String} {a : α} {rows : List (String × α)}
    (h : lookRows name rows = some a) : (name, a) ∈ rows := by
  induction rows with
  | nil => cases h
  | cons r rest ih =>
      rw [lookRows] at h
      split at h
      · rename_i hn
        obtain rfl := Option.some.inj h
        exact hn ▸ List.mem_cons_self
      · exact List.mem_cons_of_mem _ (ih h)

theorem lookRows_of_mem {name : String} {a : α} {pairs : List (String × α)} (h : Distinct pairs)
    (hmem : (name, a) ∈ pairs) : lookRows name pairs = some a := by
  induction pairs with
  | nil => cases hmem
  | cons p rest ih =>
      obtain ⟨hp, hrest⟩ := List.pairwise_cons.mp h
      rcases List.mem_cons.mp hmem with rfl | hmem
      · simp [lookRows]
      · have hne : p.1 ≠ name := hp (name, a) hmem
        simp [lookRows, hne, ih hrest hmem]

theorem lookRows_append (name : String) (xs ys : List (String × α)) :
    lookRows name (xs ++ ys) = (lookRows name xs).or (lookRows name ys) := by
  induction xs with
  | nil => rfl
  | cons x xs ih =>
      rw [List.cons_append, lookRows, ih, lookRows]
      split <;> rfl

theorem lookRows_reverse {pairs : List (String × α)} (h : Distinct pairs) (name : String) :
    lookRows name pairs.reverse = lookRows name pairs := by
  induction pairs with
  | nil => rfl
  | cons p rest ih =>
      have htail := lookRows_tail h
      rw [List.reverse_cons, lookRows_append, ih (List.pairwise_cons.mp h).2]
      by_cases hn : p.1 = name
      · subst hn
        simp [lookRows, htail]
      · simp [lookRows, hn]

theorem lookRows_filterMap {pairs : List (String × Option α)} (h : Distinct pairs) (name : String) :
    lookRows name (pairs.filterMap fun (n, v) => v.map fun v => (n, v)) =
      (lookRows name pairs).join := by
  induction pairs with
  | nil => rfl
  | cons p rest ih =>
      obtain ⟨n, v⟩ := p
      have htail := lookRows_tail h
      have hrest := ih (List.pairwise_cons.mp h).2
      by_cases hn : n = name
      · subst hn
        cases v <;> simp [lookRows, hrest, htail]
      · cases v <;> simp [lookRows, hn, hrest]

/-! ## Tables -/

theorem find?_insertAll {pairs : List (String × α)} (h : Distinct pairs) (t : Table α)
    (name : String) :
    (t.insertAll pairs).find? name = (lookRows name pairs).or (t.find? name) := by
  induction pairs generalizing t with
  | nil => rfl
  | cons p rest ih =>
      have htail := lookRows_tail h
      have hstep : t.insertAll (p :: rest) = (t.insert p.1 p.2).insertAll rest := rfl
      rw [hstep, ih (List.pairwise_cons.mp h).2, find?_insert]
      by_cases hn : p.1 = name
      · subst hn
        simp [lookRows, htail]
      · simp [lookRows, hn]

theorem find?_insertAll_of_notMem {pairs : List (String × α)} {name : String}
    (h : name ∉ pairs.map (·.1)) (t : Table α) : (t.insertAll pairs).find? name = t.find? name := by
  induction pairs generalizing t with
  | nil => rfl
  | cons p rest ih =>
      obtain ⟨hp, hrest⟩ := not_or.mp (mt List.mem_cons.mpr h)
      have hstep : t.insertAll (p :: rest) = (t.insert p.1 p.2).insertAll rest := rfl
      rw [hstep, ih hrest, find?_insert, if_neg (Ne.symm hp)]

/-- Whatever the pairs are, those that are put in place later hide what was there. -/
theorem find?_insertAll_ofList (t : Table α) (pairs : List (String × α)) (name : String) :
    (t.insertAll pairs).find? name = ((ofList pairs).find? name).or (t.find? name) := by
  induction pairs generalizing t with
  | nil => rfl
  | cons p rest ih =>
      have hstep : t.insertAll (p :: rest) = (t.insert p.1 p.2).insertAll rest := rfl
      have hfirst : ofList (p :: rest) = (empty.insert p.1 p.2).insertAll rest := rfl
      rw [hstep, hfirst, ih (t.insert p.1 p.2), ih (empty.insert p.1 p.2), find?_insert, find?_insert,
        find?_empty, Option.or_assoc]
      by_cases hn : p.1 = name
      · simp [hn]
      · simp [hn]

theorem find?_insertAll_rows (t d : Table α) (name : String) :
    (t.insertAll d.rows).find? name = (d.find? name).or (t.find? name) :=
  find?_insertAll (distinct_rows d) t name

theorem find?_ofList {pairs : List (String × α)} (h : Distinct pairs) (name : String) :
    (ofList pairs).find? name = lookRows name pairs := by
  rw [ofList, find?_insertAll h, find?_empty, Option.or_none]

theorem ofList_of_ascending {pairs : List (String × α)} (h : Ascending pairs) :
    ofList pairs = ⟨pairs, h⟩ := by
  apply ext_find?
  intro name
  exact find?_ofList (distinct_rows ⟨pairs, h⟩) name

theorem ofList_rows (t : Table α) : ofList t.rows = t := ofList_of_ascending t.ascending

theorem insert_of_find?_eq_some {t : Table α} {name : String} {a : α}
    (h : t.find? name = some a) : t.insert name a = t := by
  apply ext_find?
  intro other
  rw [find?_insert]
  split
  · rename_i heq
    rw [← heq, h]
  · rfl

theorem mapRows_insert {β : Type v} (t : Table α) (f : String → α → β) (name : String) (a : α) :
    (t.insert name a).mapRows f = (t.mapRows f).insert name (f name a) := by
  apply ext_find?
  intro other
  simp only [find?_mapRows, find?_insert]
  split
  · rename_i heq
    rw [heq, Option.map_some]
  · rfl

theorem erase_of_find?_eq_none {t : Table α} {name : String} (h : t.find? name = none) :
    t.erase name = t := by
  apply ext_find?
  intro other
  rw [find?_erase]
  split
  · rename_i heq
    rw [← heq, h]
  · rfl

theorem erase_insert {t : Table α} {name : String} (h : t.find? name = none) (a : α) :
    (t.insert name a).erase name = t := by
  apply ext_find?
  intro other
  rw [find?_erase, find?_insert]
  split
  · rename_i heq
    rw [← heq, h]
  · rfl

theorem mem_keys_iff {t : Table α} {name : String} : name ∈ t.keys ↔ (t.find? name).isSome := by
  constructor
  · intro h
    obtain ⟨r, hr, rfl⟩ := List.mem_map.mp h
    rw [find?_eq_some_iff.mpr hr]
    rfl
  · intro h
    obtain ⟨v, hv⟩ := Option.isSome_iff_exists.mp h
    exact List.mem_map.mpr ⟨(name, v), find?_eq_some_iff.mp hv, rfl⟩

theorem mem_keys_insertAll {pairs : List (String × α)} {t : Table α} {name : String} :
    name ∈ (t.insertAll pairs).keys ↔ name ∈ pairs.map (·.1) ∨ name ∈ t.keys := by
  induction pairs generalizing t with
  | nil => simp [insertAll]
  | cons p rest ih =>
      have hstep : t.insertAll (p :: rest) = (t.insert p.1 p.2).insertAll rest := rfl
      have hfirst : name ∈ (t.insert p.1 p.2).keys ↔ name = p.1 ∨ name ∈ t.keys := by
        rw [mem_keys_iff, mem_keys_iff, find?_insert]
        by_cases hn : p.1 = name
        · simp [hn]
        · simp [hn, Ne.symm hn]
      rw [hstep, ih, hfirst, List.map_cons, List.mem_cons, or_left_comm, or_assoc]

theorem eq_empty_iff {t : Table α} : t = empty ↔ t.keys = [] := by
  refine ⟨fun h => h ▸ rfl, fun h => ?_⟩
  have hrows : t.rows = [] := List.map_eq_nil_iff.mp h
  cases t
  cases hrows
  rfl

theorem keys_mapRows {β : Type v} (t : Table α) (f : String → α → β) :
    (t.mapRows f).keys = t.keys := by
  simp [keys, mapRows]

theorem keys_eq_iff {β : Type v} {s : Table α} {t : Table β} :
    s.keys = t.keys ↔ ∀ name, name ∈ s.keys ↔ name ∈ t.keys := by
  refine ⟨fun h name => by rw [h], fun h => ?_⟩
  have hsame : (s.mapRows fun _ _ => ()) = t.mapRows fun _ _ => () := by
    refine ext_find? fun name => Option.ext fun _ => ?_
    have hname := h name
    rw [mem_keys_iff, mem_keys_iff] at hname
    simp [find?_mapRows, ← Option.isSome_iff_exists, hname]
  rw [← keys_mapRows s fun _ _ => (), hsame, keys_mapRows]

end EdgeAgent.Table
