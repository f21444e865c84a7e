import EdgeAgent.Number.Shortest
import EdgeAgent.Proofs.Number.Rounding

/-! # What the shortest decimal amounts to

The decimal of a double lies among the reals that round to it, so it exceeds the
double by at most half a unit of the last place.
-/

namespace EdgeAgent

theorem tenTo_cast (n : Nat) : ((tenTo n : Nat) : Rat) = 10 ^ n := by
  simp [tenTo]

theorem zpow_eq_div {b : Rat} (hb : b ≠ 0) (e : Int) : b ^ e = b ^ e.toNat / b ^ (-e).toNat := by
  rw [eq_div_iff (pow_ne_zero _ hb), ← zpow_natCast, ← zpow_natCast, ← zpow_add₀ hb]
  congr 1
  omega

namespace Double

theorem bounds_of_reading {x : Double} {s : Bool} {m : Nat} {e : Int}
    (h : x.reading = .finite s m e) : m < 2 ^ 53 ∧ -1074 ≤ e ∧ e ≤ 971 := by
  have h52 : twoTo 52 = 2 ^ 52 := rfl
  have hinfinity : infinityMagnitude = 2047 * 2 ^ 52 := rfl
  simp only [reading] at h
  split at h
  · cases h
  · split at h
    · cases h
    · split at h
      · cases h
        omega
      · cases h
        rw [h52] at *
        omega

end Double

namespace Shortest

theorem onGrid_le {i : Interval} {exponent place : Int} {d : Nat}
    (h : onGrid i exponent place = some d) :
    (d : Rat) * 10 ^ place ≤ i.high * 2 ^ (exponent - 2) := by
  have hinside : d * (twoTo (2 - exponent).toNat * tenTo place.toNat) ≤
      i.high * (twoTo (exponent - 2).toNat * tenTo (-place).toNat) := by
    simp only [onGrid] at h
    generalize twoTo (2 - exponent).toNat * tenTo place.toNat = den at *
    generalize twoTo (exponent - 2).toNat * tenTo (-place).toNat = num at *
    generalize i.value * num / den = below at *
    have hunder {n : Nat} (h : (if i.closed = true then
        decide (i.low * num ≤ n * den) && decide (n * den ≤ i.high * num)
        else decide (i.low * num < n * den) && decide (n * den < i.high * num)) = true) :
        n * den ≤ i.high * num := by
      split at h
      · exact (by simpa using h : _ ∧ n * den ≤ i.high * num).2
      · exact Nat.le_of_lt (by simpa using h : _ ∧ n * den < i.high * num).2
    split at h
    · rename_i hbelow habove
      obtain rfl := Option.some.inj h
      split
      · exact hunder hbelow
      · exact hunder habove
    · rename_i hbelow _
      obtain rfl := Option.some.inj h
      exact hunder hbelow
    · rename_i _ habove
      obtain rfl := Option.some.inj h
      exact hunder habove
    · cases h
  have hcast : (d : Rat) * (2 ^ (2 - exponent).toNat * 10 ^ place.toNat) ≤
      i.high * (2 ^ (exponent - 2).toNat * 10 ^ (-place).toNat) := by
    simp only [← Double.twoTo_cast, ← tenTo_cast]
    exact_mod_cast hinside
  have hswap : (-(exponent - 2)).toNat = (2 - exponent).toNat := by
    congr 1
    omega
  rw [zpow_eq_div (by norm_num : (10 : Rat) ≠ 0), zpow_eq_div (by norm_num : (2 : Rat) ≠ 0), hswap,
    ← mul_div_assoc, ← mul_div_assoc, div_le_div_iff₀ (by positivity) (by positivity)]
  linarith

theorem firstGrid_spec {i : Interval} {exponent place : Int} {fuel : Nat} {d : Decimal}
    (h : firstGrid i exponent fuel place = some d) :
    0 < d.digits ∧ onGrid i exponent d.exponent = some d.digits ∧ place - fuel < d.exponent := by
  induction fuel generalizing place with
  | zero => cases h
  | succ fuel ih =>
      have hfiner (h : firstGrid i exponent fuel (place - 1) = some d) : 0 < d.digits ∧
          onGrid i exponent d.exponent = some d.digits ∧ place - (fuel + 1 : Nat) < d.exponent := by
        obtain ⟨hpos, hgrid, hplace⟩ := ih h
        exact ⟨hpos, hgrid, by omega⟩
      rw [firstGrid] at h
      cases hgrid : onGrid i exponent place with
      | none =>
          rw [hgrid] at h
          exact hfiner h
      | some n =>
          simp only [hgrid] at h
          by_cases hn : n = 0
          · rw [if_pos hn] at h
            exact hfiner h
          · rw [if_neg hn] at h
            cases h
            refine ⟨Nat.pos_of_ne_zero hn, hgrid, ?_⟩
            show place - (fuel + 1 : Nat) < place
            omega

theorem decimalOf_spec {m : Nat} {e : Int} (he : -1074 ≤ e) :
    decimalOf m e = ⟨0, 0⟩ ∨ 0 < (decimalOf m e).digits ∧ -346 ≤ (decimalOf m e).exponent ∧
      ((decimalOf m e).digits : Rat) * 10 ^ (decimalOf m e).exponent ≤ (m + 1 / 2) * 2 ^ e := by
  simp only [decimalOf]
  generalize hplace : ((m.log2 : Int) + e) * 30103 / 100000 + 2 = place
  have hlow : -322 ≤ place := by omega
  cases hgrid : firstGrid (interval m e) e 24 place with
  | none => exact .inl rfl
  | some d =>
      obtain ⟨hpos, hon, hexponent⟩ := firstGrid_spec hgrid
      refine .inr ⟨hpos, ?_, ?_⟩
      · show -346 ≤ d.exponent
        omega
      · refine (onGrid_le hon).trans (le_of_eq ?_)
        have hhigh : (interval m e).high = 4 * m + 2 := rfl
        rw [hhigh, zpow_sub₀ (by norm_num)]
        push_cast
        ring

end Shortest
end EdgeAgent
