import EdgeAgent.Payload.Codec

/-! # Equality of JSON values

Equality compares doubles as numbers, so it is coarser than identity on the two
zeros, and it is reflexive only where no double is a NaN. Two documents are equal
values exactly if they answer every look-up with equal values.
-/

namespace EdgeAgent

namespace Double

theorem same_self {x : Double} (h : x.isFinite) : x.same x := by
  have hm : x.magnitude < infinityMagnitude := by simpa [isFinite] using h
  simp [same, Nat.le_of_lt hm]

theorem same_trans {x y z : Double} (hxy : x.same y) (hyz : y.same z) : x.same z := by
  simp only [same, Bool.and_eq_true, Bool.or_eq_true, decide_eq_true_eq, beq_iff_eq] at *
  obtain ⟨⟨hx, _⟩, hbits⟩ := hxy
  obtain ⟨⟨_, hz⟩, hbits'⟩ := hyz
  refine ⟨⟨hx, hz⟩, ?_⟩
  rcases hbits with heq | ⟨hx0, hy0⟩
  · rcases hbits' with heq' | ⟨hy0, hz0⟩
    · exact .inl (heq.trans heq')
    · exact .inr ⟨by simpa [magnitude, heq] using hy0, hz0⟩
  · rcases hbits' with heq' | ⟨_, hz0⟩
    · exact .inr ⟨hx0, by simpa [magnitude, heq'] using hy0⟩
    · exact .inr ⟨hx0, hz0⟩

theorem same_comm (x y : Double) : x.same y = y.same x := by
  rw [Bool.eq_iff_iff]
  simp only [same, Bool.and_eq_true, Bool.or_eq_true, beq_iff_eq]
  constructor
  · rintro ⟨⟨hx, hy⟩, hbits⟩
    exact ⟨⟨hy, hx⟩, hbits.imp Eq.symm And.symm⟩
  · rintro ⟨⟨hy, hx⟩, hbits⟩
    exact ⟨⟨hx, hy⟩, hbits.imp Eq.symm And.symm⟩

end Double

namespace Json

/-! ## Finite values -/

mutual
/-- Every double in the value is finite. No text has a value of another kind. -/
def isFinite : Json → Bool
  | .double x => x.isFinite
  | .arr items => isFiniteItems items
  | .obj members => isFiniteMembers members
  | _ => true

def isFiniteItems : List Json → Bool
  | [] => true
  | v :: rest => isFinite v && isFiniteItems rest

def isFiniteMembers : List (String × Json) → Bool
  | [] => true
  | (_, v) :: rest => isFinite v && isFiniteMembers rest
end

theorem isFinite_of_mem_members {members : List (String × Json)} {name : String} {v : Json}
    (h : isFiniteMembers members) (hv : (name, v) ∈ members) : v.isFinite := by
  induction members with
  | nil => simp at hv
  | cons head rest ih =>
      obtain ⟨n, u⟩ := head
      simp only [isFiniteMembers, Bool.and_eq_true] at h
      rcases List.mem_cons.mp hv with hv | hv
      · cases hv
        exact h.1
      · exact ih h.2 hv

theorem isFinite_of_find? {d : Document} {name : String} {v : Json}
    (h : (Json.ofDocument d).isFinite) (hv : d.find? name = some v) : v.isFinite :=
  isFinite_of_mem_members (by simpa [ofDocument, isFinite] using h) (Table.find?_eq_some_iff.mp hv)

/-! ## Reflexivity, symmetry and transitivity -/

mutual
theorem same_self : ∀ {v : Json}, v.isFinite → same v v
  | .null, _ => rfl
  | .bool b, _ => by simp [same]
  | .int n, _ => by simp [same]
  | .double x, h => Double.same_self (by simpa [isFinite] using h)
  | .str s, _ => by simp [same]
  | .arr items, h => sameItems_self (by simpa [isFinite] using h)
  | .obj members, h => sameMembers_self (by simpa [isFinite] using h)

theorem sameItems_self : ∀ {vs : List Json}, isFiniteItems vs → sameItems vs vs
  | [], _ => rfl
  | v :: rest, h => by
      simp only [isFiniteItems, Bool.and_eq_true] at h
      simp [sameItems, same_self h.1, sameItems_self h.2]

theorem sameMembers_self : ∀ {ms : List (String × Json)}, isFiniteMembers ms → sameMembers ms ms
  | [], _ => rfl
  | (n, v) :: rest, h => by
      simp only [isFiniteMembers, Bool.and_eq_true] at h
      simp [sameMembers, same_self h.1, sameMembers_self h.2]
end

mutual
theorem same_comm : ∀ v w, same v w = same w v
  | .null, w | .bool _, w | .int _, w | .str _, w => by
      cases w <;> simp [same, Bool.beq_comm]
  | .double x, w => by
      cases w with
      | double y => exact Double.same_comm x y
      | null | bool | int | str | arr | obj => rfl
  | .arr vs, w => by
      cases w with
      | arr ws => exact sameItems_comm vs ws
      | null | bool | int | str | double | obj => rfl
  | .obj vs, w => by
      cases w with
      | obj ws => exact sameMembers_comm vs ws
      | null | bool | int | str | double | arr => rfl

theorem sameItems_comm : ∀ vs ws, sameItems vs ws = sameItems ws vs
  | [], ws => by cases ws <;> rfl
  | v :: vs, ws => by
      cases ws with
      | nil => rfl
      | cons w ws => rw [sameItems, sameItems, same_comm v w, sameItems_comm vs ws]

theorem sameMembers_comm : ∀ vs ws, sameMembers vs ws = sameMembers ws vs
  | [], ws => by cases ws <;> rfl
  | (m, v) :: vs, ws => by
      cases ws with
      | nil => rfl
      | cons w ws =>
          rw [sameMembers, sameMembers, same_comm v w.2, sameMembers_comm vs ws, Bool.beq_comm]
end

mutual
theorem same_trans : ∀ {u v w : Json}, same u v → same v w → same u w
  | .null, v, w, huv, hvw => by cases v <;> simp [same] at huv; exact hvw
  | .bool a, v, w, huv, hvw => by
      cases v <;> simp [same] at huv
      exact huv ▸ hvw
  | .int a, v, w, huv, hvw => by
      cases v <;> simp [same] at huv
      exact huv ▸ hvw
  | .str a, v, w, huv, hvw => by
      cases v <;> simp [same] at huv
      exact huv ▸ hvw
  | .double x, v, w, huv, hvw => by
      cases v <;> simp [same] at huv
      cases w <;> simp [same] at hvw
      exact Double.same_trans huv hvw
  | .arr us, v, w, huv, hvw => by
      cases v <;> simp [same] at huv
      cases w <;> simp [same] at hvw
      exact sameItems_trans huv hvw
  | .obj us, v, w, huv, hvw => by
      cases v <;> simp [same] at huv
      cases w <;> simp [same] at hvw
      exact sameMembers_trans huv hvw

theorem sameItems_trans : ∀ {us vs ws : List Json},
    sameItems us vs → sameItems vs ws → sameItems us ws
  | [], vs, ws, huv, hvw => by cases vs <;> simp [sameItems] at huv; exact hvw
  | u :: us, vs, ws, huv, hvw => by
      cases vs <;> simp [sameItems] at huv
      cases ws <;> simp [sameItems] at hvw
      simp [sameItems, same_trans huv.1 hvw.1, sameItems_trans huv.2 hvw.2]

theorem sameMembers_trans : ∀ {us vs ws : List (String × Json)},
    sameMembers us vs → sameMembers vs ws → sameMembers us ws
  | [], vs, ws, huv, hvw => by cases vs <;> simp [sameMembers] at huv; exact hvw
  | (m, u) :: us, vs, ws, huv, hvw => by
      cases vs <;> simp [sameMembers] at huv
      cases ws <;> simp [sameMembers] at hvw
      obtain ⟨⟨hm, hu⟩, hus⟩ := huv
      obtain ⟨⟨hn, hv⟩, hvs⟩ := hvw
      simp [sameMembers, hm, hn, same_trans hu hv, sameMembers_trans hus hvs]
end

/-- A text or a list of texts. -/
def IsText (v : Json) : Prop := (∃ s, v = .str s) ∨ ∃ ss, v = texts ss

theorem isFinite_of_isText {v : Json} (h : v.IsText) : v.isFinite := by
  rcases h with ⟨s, rfl⟩ | ⟨ss, rfl⟩
  · rfl
  · simp only [texts, isFinite]
    induction ss with
    | nil => rfl
    | cons s ss ih => simpa [isFiniteItems, isFinite] using ih

theorem eq_of_sameItems_str {ss : List String} {vs : List Json}
    (h : sameItems vs (ss.map .str)) : vs = ss.map .str := by
  induction ss generalizing vs with
  | nil => cases vs <;> simp [sameItems] at h ⊢
  | cons s ss ih =>
      cases vs with
      | nil => simp [sameItems] at h
      | cons v vs =>
          simp only [List.map_cons, sameItems, Bool.and_eq_true] at h ⊢
          obtain ⟨hv, hvs⟩ := h
          cases v <;> simp [same] at hv
          rw [hv, ih hvs]

theorem eq_of_same_isText {v w : Json} (hw : w.IsText) (h : same v w) : v = w := by
  rcases hw with ⟨s, rfl⟩ | ⟨ss, rfl⟩
  · cases v <;> simp [same] at h
    rw [h]
  · cases v <;> simp [texts, same] at h
    rw [eq_of_sameItems_str h, texts]

end Json

/-! ## Answers of look-ups -/

namespace Payload

theorem sameValue_trans {u v w : Option Json} (huv : sameValue u v) (hvw : sameValue v w) :
    sameValue u w := by
  cases u <;> cases v <;> simp [sameValue] at huv
  · exact hvw
  · cases w <;> simp [sameValue] at hvw
    exact Json.same_trans huv hvw

theorem sameValue_comm (u v : Option Json) : sameValue u v = sameValue v u := by
  cases u with
  | none => cases v <;> rfl
  | some u =>
      cases v with
      | none => rfl
      | some v => exact Json.same_comm u v

theorem sameValue_congr {u v : Option Json} (h : sameValue u v) (w : Option Json) :
    sameValue w u = sameValue w v := by
  rw [Bool.eq_iff_iff]
  constructor
  · intro hwu
    exact sameValue_trans hwu h
  · intro hwv
    exact sameValue_trans hwv (sameValue_comm u v ▸ h)

theorem isSome_of_sameValue {u v : Option Json} (h : sameValue u v) : u.isSome = v.isSome := by
  cases u <;> cases v <;> simp [sameValue] at h ⊢

end Payload

open Payload Table

namespace Json

theorem sameValue_of_sameMembers {xs ys : List (String × Json)} (h : sameMembers xs ys)
    (name : String) : sameValue (lookRows name xs) (lookRows name ys) := by
  induction xs generalizing ys with
  | nil =>
      cases ys with
      | nil => rfl
      | cons y ys => simp [sameMembers] at h
  | cons x xs ih =>
      cases ys with
      | nil => simp [sameMembers] at h
      | cons y ys =>
          simp only [sameMembers, Bool.and_eq_true, beq_iff_eq] at h
          obtain ⟨⟨hname, hv⟩, hrest⟩ := h
          by_cases hx : x.1 = name
          · have hy : y.1 = name := hname ▸ hx
            simp only [lookRows, if_pos hx, if_pos hy]
            exact hv
          · have hy : y.1 ≠ name := hname ▸ hx
            simpa [lookRows, hx, hy] using ih hrest

/-- The least names of rows that answer alike are the same: a lesser one of either
side would have no answer on the other. -/
private theorem head_name_eq {x y : String × Json} {xs ys : List (String × Json)}
    (hx : Ascending (x :: xs)) (hy : Ascending (y :: ys))
    (h : ∀ name, sameValue (lookRows name (x :: xs)) (lookRows name (y :: ys))) : x.1 = y.1 := by
  by_cases hne : x.1 = y.1
  · exact hne
  have hys : (lookRows x.1 ys).isSome := by
    simpa [lookRows, Ne.symm hne] using (isSome_of_sameValue (h x.1)).symm
  have hxs : (lookRows y.1 xs).isSome := by
    simpa [lookRows, hne] using isSome_of_sameValue (h y.1)
  obtain ⟨hyhead, hytail⟩ := List.pairwise_cons.mp hy
  obtain ⟨hxhead, hxtail⟩ := List.pairwise_cons.mp hx
  obtain ⟨v, hv⟩ := Option.isSome_iff_exists.mp hys
  obtain ⟨u, hu⟩ := Option.isSome_iff_exists.mp hxs
  have hlt := hyhead _ ((lookRows_eq_some_iff hytail).mp hv)
  have hgt := hxhead _ ((lookRows_eq_some_iff hxtail).mp hu)
  exact (String.lt_asymm hlt hgt).elim

theorem sameMembers_of_sameValue {xs ys : List (String × Json)} (hx : Ascending xs)
    (hy : Ascending ys) (h : ∀ name, sameValue (lookRows name xs) (lookRows name ys)) :
    sameMembers xs ys := by
  induction xs generalizing ys with
  | nil =>
      cases ys with
      | nil => rfl
      | cons y ys => simpa [lookRows, sameValue] using h y.1
  | cons x xs ih =>
      cases ys with
      | nil => simpa [lookRows, sameValue] using h x.1
      | cons y ys =>
          have hname := head_name_eq hx hy h
          obtain ⟨hxhead, hxtail⟩ := List.pairwise_cons.mp hx
          obtain ⟨hyhead, hytail⟩ := List.pairwise_cons.mp hy
          have hvalue : sameValue (some x.2) (some y.2) := by
            simpa only [lookRows, if_pos hname, if_pos] using h y.1
          have hrest : ∀ name, sameValue (lookRows name xs) (lookRows name ys) := by
            intro name
            by_cases hn : x.1 = name
            · subst hn
              rw [lookRows_eq_none fun r hr he => String.lt_irrefl _ (he ▸ hxhead r hr),
                lookRows_eq_none fun r hr he => String.lt_irrefl _ (he ▸ hname ▸ hyhead r hr)]
              rfl
            · have hn' : y.1 ≠ name := hname ▸ hn
              simpa [lookRows, hn, hn'] using h name
          simp only [sameMembers, hname, beq_self_eq_true, Bool.true_and, Bool.and_eq_true]
          exact ⟨hvalue, ih hxtail hytail hrest⟩

end Json

namespace Document

/-- The documents answer every look-up with equal values. -/
def Agree (d e : Document) : Prop :=
  ∀ name, sameValue (d.find? name) (e.find? name)

theorem agree_iff {d e : Document} :
    Agree d e ↔ (Json.ofDocument d == Json.ofDocument e) = true := by
  constructor
  · intro h
    exact Json.sameMembers_of_sameValue d.ascending e.ascending h
  · intro h
    exact Json.sameValue_of_sameMembers h

theorem agree_self {d : Document} (h : ∀ name v, d.find? name = some v → v.isFinite) :
    Agree d d := by
  intro name
  cases hv : d.find? name with
  | none => rfl
  | some v => exact Json.same_self (h name v hv)

theorem eq_of_agree {d e : Document} (h : Agree d e)
    (he : ∀ name v, e.find? name = some v → v.IsText) : d = e := by
  apply ext_find?
  intro name
  have hname := h name
  cases hv : e.find? name with
  | none => cases hd : d.find? name <;> simp [hd, hv, sameValue] at hname ⊢
  | some v =>
      cases hd : d.find? name with
      | none => simp [hd, hv, sameValue] at hname
      | some u =>
          rw [hd, hv] at hname
          rw [Json.eq_of_same_isText (he name v hv) hname]

end Document
end EdgeAgent
