import Mathlib.Data.List.Perm.Basic

/-! # Rankings

A ranking has the items of a list in the descending order of a key, those with the same key
in the order that they had. So there is only one ranking of a list, and merge sort finds it.
-/

namespace EdgeAgent

variable {α : Type} {key : α → Int} {items ranked : List α}

structure Ranks (key : α → Int) (items ranked : List α) : Prop where
  perm : ranked.Perm items
  descending : ranked.Pairwise fun a b => key b ≤ key a
  ties : ∀ k : Int, ranked.filter (key · = k) = items.filter (key · = k)

theorem Ranks.unique {other : List α} (h : Ranks key items ranked) (h' : Ranks key items other) :
    other = ranked := by
  have hperm : other.Perm ranked := h'.perm.trans h.perm.symm
  have hties : ∀ k : Int, other.filter (key · = k) = ranked.filter (key · = k) :=
    fun k => (h'.ties k).trans (h.ties k).symm
  have hother := h'.descending
  have hranked := h.descending
  clear h h'
  induction other generalizing ranked with
  | nil => exact hperm.nil_eq
  | cons x xs ih =>
      cases ranked with
      | nil => exact absurd hperm.symm.nil_eq (List.cons_ne_nil x xs).symm
      | cons y ys =>
          obtain ⟨hx, hxs⟩ := List.pairwise_cons.mp hother
          obtain ⟨hy, hys⟩ := List.pairwise_cons.mp hranked
          -- Either of the first items has the greatest key, and the ties tell which it is.
          have hkey : key x = key y := by
            apply Int.le_antisymm
            · rcases List.mem_cons.mp (hperm.subset List.mem_cons_self) with rfl | hmem
              · exact Int.le_refl _
              · exact hy x hmem
            · rcases List.mem_cons.mp (hperm.symm.subset List.mem_cons_self) with rfl | hmem
              · exact Int.le_refl _
              · exact hx y hmem
          have hfirst := hties (key x)
          rw [List.filter_cons_of_pos (by simp), List.filter_cons_of_pos (by simp [hkey])] at hfirst
          obtain rfl := (List.cons.inj hfirst).1
          rw [ih hperm.cons_inv ?_ hxs hys]
          intro k
          have hk := hties k
          by_cases hhas : key x = k
          · rw [List.filter_cons_of_pos (by simp [hhas]),
              List.filter_cons_of_pos (by simp [hhas])] at hk
            exact (List.cons.inj hk).2
          · rwa [List.filter_cons_of_neg (by simp [hhas]),
              List.filter_cons_of_neg (by simp [hhas])] at hk

theorem ranks_mergeSort (key : α → Int) (items : List α) :
    Ranks key items (items.mergeSort fun a b => key b ≤ key a) := by
  have htrans : ∀ a b c : α, decide (key b ≤ key a) = true → decide (key c ≤ key b) = true →
      decide (key c ≤ key a) = true := by
    simp only [decide_eq_true_eq]
    omega
  have htotal : ∀ a b : α, (decide (key b ≤ key a) || decide (key a ≤ key b)) = true := by
    simp only [Bool.or_eq_true, decide_eq_true_eq]
    omega
  have hperm := List.mergeSort_perm items fun a b => decide (key b ≤ key a)
  refine ⟨hperm, (List.pairwise_mergeSort htrans htotal items).imp (by simp), fun k => ?_⟩
  have hlevel : (items.filter (key · = k)).Pairwise fun a b => decide (key b ≤ key a) = true := by
    refine List.pairwise_of_forall_mem_list fun a ha b hb => ?_
    have ha := (List.mem_filter.mp ha).2
    have hb := (List.mem_filter.mp hb).2
    simp only [decide_eq_true_eq] at ha hb ⊢
    omega
  have hkept := (List.sublist_mergeSort htrans htotal hlevel List.filter_sublist).filter (key · = k)
  rw [List.filter_filter] at hkept
  simp only [Bool.and_self] at hkept
  exact (hkept.eq_of_length (hperm.filter _).length_eq.symm).symm

/-- The first items of a ranking: none of the others has a greater key, and of those with
one key the first ones are taken. -/
theorem Ranks.take (h : Ranks key items ranked) (n : Nat) :
    ∃ left, (ranked.take n ++ left).Perm items ∧
      (∀ kept ∈ ranked.take n, ∀ out ∈ left, key out ≤ key kept) ∧
      ∀ k : Int, (ranked.take n).filter (key · = k) <+: items.filter (key · = k) := by
  have hsplit : ranked.take n ++ ranked.drop n = ranked := List.take_append_drop n ranked
  refine ⟨ranked.drop n, hsplit.symm ▸ h.perm, ?_, fun k => ?_⟩
  · have hdescending := h.descending
    rw [← hsplit] at hdescending
    exact (List.pairwise_append.mp hdescending).2.2
  · rw [← h.ties k]
    exact (List.take_prefix n ranked).filter _

end EdgeAgent
