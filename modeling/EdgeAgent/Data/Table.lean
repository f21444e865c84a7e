/-! # Tables keyed by text

A table holds at most one value per name, in ascending order of the names. The
order is part of the type, so two tables are equal as soon as they answer every
look-up alike (`Table.ext_find?`). -/

namespace EdgeAgent

universe u v

abbrev Ascending {α : Type u} (rows : List (String × α)) : Prop :=
  rows.Pairwise fun a b => a.1 < b.1

/-- A finite map from names to values. -/
structure Table (α : Type u) where
  rows : List (String × α)
  ascending : Ascending rows

namespace Table

variable {α : Type u} {β : Type v}

/-! ## Rows -/

def lookRows (name : String) : List (String × α) → Option α
  | [] => none
  | (n, a) :: rest => if n = name then some a else lookRows name rest

def putRows (name : String) (a : α) : List (String × α) → List (String × α)
  | [] => [(name, a)]
  | (n, b) :: rest =>
    if name < n then (name, a) :: (n, b) :: rest
    else if n = name then (name, a) :: rest
    else (n, b) :: putRows name a rest

theorem mem_putRows {name : String} {a : α} {rows : List (String × α)} {r : String × α}
    (h : r ∈ putRows name a rows) : r = (name, a) ∨ r ∈ rows := by
  induction rows with
  | nil => simpa [putRows] using h
  | cons head rest ih =>
    obtain ⟨n, b⟩ := head
    simp only [putRows] at h
    split at h
    · simpa using h
    · split at h
      · rcases List.mem_cons.1 h with h | h
        · exact .inl h
        · exact .inr (List.mem_cons_of_mem _ h)
      · rcases List.mem_cons.1 h with h | h
        · exact .inr (h ▸ List.mem_cons_self)
        · exact (ih h).imp id (List.mem_cons_of_mem _)

theorem ascending_putRows (name : String) (a : α) {rows : List (String × α)}
    (h : Ascending rows) : Ascending (putRows name a rows) := by
  induction rows with
  | nil => exact List.pairwise_singleton _ _
  | cons head rest ih =>
    obtain ⟨n, b⟩ := head
    obtain ⟨hhead, hrest⟩ := List.pairwise_cons.1 h
    simp only [putRows]
    split
    · rename_i hlt
      refine List.pairwise_cons.2 ⟨fun r hr => ?_, h⟩
      rcases List.mem_cons.1 hr with rfl | hr
      · exact hlt
      · exact String.lt_trans hlt (hhead r hr)
    · rename_i hnlt
      split
      · rename_i heq
        subst heq
        exact List.pairwise_cons.2 ⟨fun r hr => hhead r hr, hrest⟩
      · rename_i hne
        refine List.pairwise_cons.2 ⟨fun r hr => ?_, ih hrest⟩
        rcases mem_putRows hr with rfl | hr
        · exact String.not_le.1 fun hle => hne (String.le_antisymm (String.not_lt.1 hnlt) hle)
        · exact hhead r hr

/-! ## Operations -/

def empty : Table α := ⟨[], List.Pairwise.nil⟩

instance : EmptyCollection (Table α) := ⟨empty⟩
instance : Inhabited (Table α) := ⟨empty⟩

def find? (t : Table α) (name : String) : Option α := lookRows name t.rows

def contains (t : Table α) (name : String) : Bool := (t.find? name).isSome

def insert (t : Table α) (name : String) (a : α) : Table α :=
  ⟨putRows name a t.rows, ascending_putRows name a t.ascending⟩

def filter (t : Table α) (keep : String → α → Bool) : Table α :=
  ⟨t.rows.filter fun r => keep r.1 r.2, t.ascending.sublist List.filter_sublist⟩

def erase (t : Table α) (name : String) : Table α :=
  t.filter fun n _ => n != name

def mapRows (t : Table α) (f : String → α → β) : Table β :=
  ⟨t.rows.map fun r => (r.1, f r.1 r.2), List.pairwise_map.2 t.ascending⟩

def modify (t : Table α) (name : String) (f : α → α) : Table α :=
  t.mapRows fun n a => if n = name then f a else a

/-- Later pairs replace earlier ones of the same name. -/
def insertAll (t : Table α) (pairs : List (String × α)) : Table α :=
  pairs.foldl (fun t p => t.insert p.1 p.2) t

def ofList (pairs : List (String × α)) : Table α := empty.insertAll pairs

/-- Removes every one of some names. -/
def eraseAll (t : Table α) (names : List String) : Table α :=
  t.filter fun n _ => !names.contains n

def keys (t : Table α) : List String := t.rows.map (·.1)

def values (t : Table α) : List α := t.rows.map (·.2)

def size (t : Table α) : Nat := t.rows.length

def isEmpty (t : Table α) : Bool := t.rows.isEmpty

/-! ## Look-up laws -/

theorem lookRows_putRows (name other : String) (a : α) (rows : List (String × α)) :
    lookRows other (putRows name a rows) =
      if name = other then some a else lookRows other rows := by
  induction rows with
  | nil => simp [putRows, lookRows]
  | cons head rest ih =>
    obtain ⟨n, b⟩ := head
    simp only [putRows]
    split
    · simp [lookRows]
    · split
      · rename_i heq
        subst heq
        simp only [lookRows]
        split <;> rfl
      · rename_i hne
        simp only [lookRows, ih]
        split
        · rename_i heq
          subst heq
          rw [if_neg fun h => hne h.symm]
        · rfl

@[simp] theorem find?_empty (name : String) : (empty : Table α).find? name = none := rfl

theorem find?_insert (t : Table α) (name other : String) (a : α) :
    (t.insert name a).find? other = if name = other then some a else t.find? other :=
  lookRows_putRows name other a t.rows

theorem lookRows_eq_none {name : String} {rows : List (String × α)}
    (h : ∀ r ∈ rows, r.1 ≠ name) : lookRows name rows = none := by
  induction rows with
  | nil => rfl
  | cons head rest ih =>
    simp [lookRows, h head List.mem_cons_self,
      ih fun r hr => h r (List.mem_cons_of_mem _ hr)]

theorem lookRows_filter (keep : String → α → Bool) (name : String) {rows : List (String × α)}
    (h : Ascending rows) :
    lookRows name (rows.filter fun r => keep r.1 r.2) =
      (lookRows name rows).filter (keep name) := by
  induction rows with
  | nil => rfl
  | cons head rest ih =>
    obtain ⟨n, a⟩ := head
    obtain ⟨hhead, hrest⟩ := List.pairwise_cons.1 h
    by_cases hn : n = name
    · subst hn
      by_cases hk : keep n a
      · simp [lookRows, hk, Option.filter]
      · have hnone : lookRows n (rest.filter fun r => keep r.1 r.2) = none :=
          lookRows_eq_none fun r hr heq =>
            String.lt_irrefl n (heq ▸ hhead r (List.mem_filter.1 hr).1)
        simp [lookRows, hk, hnone, Option.filter]
    · by_cases hk : keep n a <;> simp [lookRows, hk, hn, ih hrest]

theorem find?_filter (t : Table α) (keep : String → α → Bool) (name : String) :
    (t.filter keep).find? name = (t.find? name).filter (keep name) :=
  lookRows_filter keep name t.ascending

theorem find?_erase (t : Table α) (name other : String) :
    (t.erase name).find? other = if name = other then none else t.find? other := by
  rw [erase, find?_filter]
  by_cases h : name = other
  · subst h
    cases t.find? name <;> simp
  · rw [if_neg h]
    cases t.find? other with
    | none => rfl
    | some a => simp [Option.filter, Ne.symm h]

theorem find?_eraseAll (t : Table α) (names : List String) (other : String) :
    (t.eraseAll names).find? other = if names.contains other then none else t.find? other := by
  rw [eraseAll, find?_filter]
  cases t.find? other with
  | none => simp
  | some a => cases h : names.contains other <;> simp [Option.filter]

theorem lookRows_map (f : String → α → β) (name : String) (rows : List (String × α)) :
    lookRows name (rows.map fun r => (r.1, f r.1 r.2)) = (lookRows name rows).map (f name) := by
  induction rows with
  | nil => rfl
  | cons head rest ih =>
    obtain ⟨n, a⟩ := head
    by_cases h : n = name
    · subst h
      simp [lookRows]
    · simp [lookRows, h, ih]

theorem find?_mapRows (t : Table α) (f : String → α → β) (name : String) :
    (t.mapRows f).find? name = (t.find? name).map (f name) :=
  lookRows_map f name t.rows

theorem lookRows_eq_some_iff {name : String} {a : α} {rows : List (String × α)}
    (h : Ascending rows) : lookRows name rows = some a ↔ (name, a) ∈ rows := by
  induction rows with
  | nil => simp [lookRows]
  | cons head rest ih =>
    obtain ⟨n, b⟩ := head
    obtain ⟨hhead, hrest⟩ := List.pairwise_cons.1 h
    by_cases hn : n = name
    · subst hn
      simp only [lookRows, if_pos, Option.some.injEq, List.mem_cons, Prod.mk.injEq, true_and]
      constructor
      · exact fun h => .inl h.symm
      · rintro (h | h)
        · exact h.symm
        · exact (String.lt_irrefl n (hhead _ h)).elim
    · simp [lookRows, hn, ih hrest, Ne.symm hn]

theorem find?_eq_some_iff {t : Table α} {name : String} {a : α} :
    t.find? name = some a ↔ (name, a) ∈ t.rows :=
  lookRows_eq_some_iff t.ascending

theorem eq_of_mem_iff {xs ys : List (String × α)} (hx : Ascending xs) (hy : Ascending ys)
    (h : ∀ r, r ∈ xs ↔ r ∈ ys) : xs = ys := by
  induction xs generalizing ys with
  | nil =>
    cases ys with
    | nil => rfl
    | cons b _ => exact absurd ((h b).2 List.mem_cons_self) (by simp)
  | cons a xs ih =>
    cases ys with
    | nil => exact absurd ((h a).1 List.mem_cons_self) (by simp)
    | cons b ys =>
      obtain ⟨ha, hxs⟩ := List.pairwise_cons.1 hx
      obtain ⟨hb, hys⟩ := List.pairwise_cons.1 hy
      have hab : a = b := by
        rcases List.mem_cons.1 ((h a).1 List.mem_cons_self) with hab | hab
        · exact hab
        · rcases List.mem_cons.1 ((h b).2 List.mem_cons_self) with hba | hba
          · exact hba.symm
          · exact (String.lt_asymm (hb a hab) (ha b hba)).elim
      subst hab
      refine congrArg (a :: ·) (ih hxs hys fun r => ⟨fun hr => ?_, fun hr => ?_⟩)
      · rcases List.mem_cons.1 ((h r).1 (List.mem_cons_of_mem _ hr)) with rfl | hr'
        · exact (String.lt_irrefl _ (ha r hr)).elim
        · exact hr'
      · rcases List.mem_cons.1 ((h r).2 (List.mem_cons_of_mem _ hr)) with rfl | hr'
        · exact (String.lt_irrefl _ (hb r hr)).elim
        · exact hr'

theorem ext_find? {s t : Table α} (h : ∀ name, s.find? name = t.find? name) : s = t := by
  have hrows : s.rows = t.rows := eq_of_mem_iff s.ascending t.ascending fun r => by
    rw [← find?_eq_some_iff (t := s), ← find?_eq_some_iff (t := t), h]
  cases s
  cases t
  cases hrows
  rfl

end Table
end EdgeAgent
