import EdgeAgent.Json.Reader
import EdgeAgent.Proofs.Number.Shortest

/-! # The scaling of the reader stays in range

The reader rounds the digits, rounds the power of ten and rounds their product.
The decimal of a double survives that, although the three roundings may lead to
another double.
-/

namespace EdgeAgent.Json.Reader

open Double Shortest

/-- What two roundings add at most. -/
def slack : Rat := (1 + 1 / 2 ^ 53) ^ 2

theorem scaleDown_of_neg {fuel : Nat} {x : Double} {e : Int} (he : e < 0) :
    (scaleDown fuel x e).isSome = true := by
  induction fuel generalizing x e with
  | zero => rfl
  | succ fuel ih =>
      have hpower : (greatestPower : Int) = 308 := rfl
      rw [scaleDown]
      split
      · rw [if_neg (by omega)]
        rfl
      · split
        · rfl
        · exact ih (by omega)

theorem scale_of_neg (negative : Bool) (n : Nat) {e : Int} (he : e < 0) :
    (scale negative n e).isSome = true := by
  have hpower : (greatestPower : Int) = 308 := rfl
  simp only [scale, if_pos (show e ≤ greatestPower by omega), Option.isSome_map]
  exact scaleDown_of_neg he

theorem overflow_bounds : (10 : Rat) ^ 308 < overflow ∧ overflow < 10 ^ 309 := by
  have hlow : ((2 * 10 ^ 308 : Nat) : Rat) < ((2 ^ 54 - 1) * 2 ^ 971 : Nat) :=
    Nat.cast_lt.mpr (by decide +kernel)
  have hhigh : (((2 ^ 54 - 1) * 2 ^ 971 : Nat) : Rat) < (2 * 10 ^ 309 : Nat) :=
    Nat.cast_lt.mpr (by decide +kernel)
  have htwice : (((2 ^ 54 - 1) * 2 ^ 971 : Nat) : Rat) = 2 * overflow := by
    unfold overflow
    rw [Nat.cast_mul, Nat.cast_pow, Nat.cast_two]
    generalize (2 : Rat) ^ 971 = unit
    norm_num
    ring
  rw [htwice, Nat.cast_mul, Nat.cast_pow, Nat.cast_two] at hlow hhigh
  exact ⟨lt_of_mul_lt_mul_left hlow (by norm_num), lt_of_mul_lt_mul_left hhigh (by norm_num)⟩

/-- Below the two greatest doubles there is room for both roundings. -/
theorem slack_lt_overflow {m : Nat} {e : Int} (hm : m < 2 ^ 53) (he : e ≤ 971)
    (htop : ¬(e = 971 ∧ (m = 2 ^ 53 - 2 ∨ m = 2 ^ 53 - 1))) :
    ((m : Rat) + 1 / 2) * 2 ^ e * slack < overflow := by
  have hunit : (0 : Rat) < 2 ^ 971 := by positivity
  have hvalue : ((m : Rat) + 1 / 2) * 2 ^ e ≤ (2 ^ 53 - 5 / 2) * 2 ^ 971 := by
    by_cases hlast : e = 971
    · have hcast : (m : Rat) + 3 ≤ 2 ^ 53 := by exact_mod_cast (by omega : m + 3 ≤ 2 ^ 53)
      have hpower : (2 : Rat) ^ e = 2 ^ 971 := by
        rw [hlast, ← zpow_natCast]
        rfl
      rw [hpower]
      refine mul_le_mul_of_nonneg_right ?_ hunit.le
      linarith
    · have hcast : (m : Rat) + 1 ≤ 2 ^ 53 := by exact_mod_cast hm
      have hpower : (2 : Rat) ^ e * 2 ≤ 2 ^ 971 := by
        rw [← zpow_add_one₀ (by norm_num), ← zpow_natCast]
        exact zpow_le_zpow_right₀ (by norm_num) (by omega)
      have hproduct : ((m : Rat) + 1 / 2) * 2 ^ e ≤ (2 ^ 53 - 1 / 2) * 2 ^ e :=
        mul_le_mul_of_nonneg_right (by linarith) (by positivity)
      generalize (2 : Rat) ^ 971 = unit at *
      linarith
  have hslack : ((2 : Rat) ^ 53 - 5 / 2) * slack < 2 ^ 53 - 1 / 2 := by norm_num [slack]
  have hpos : 0 < slack := by norm_num [slack]
  calc ((m : Rat) + 1 / 2) * 2 ^ e * slack
      ≤ (2 ^ 53 - 5 / 2) * 2 ^ 971 * slack := mul_le_mul_of_nonneg_right hvalue hpos.le
    _ = (2 ^ 53 - 5 / 2) * slack * 2 ^ 971 := mul_right_comm _ _ _
    _ < overflow := mul_lt_mul_of_pos_right hslack hunit

theorem reading_ofNat {n : Nat} (h : (n : Rat) < overflow) :
    ∃ m e, (Double.ofNat n).reading = .finite false m e ∧
      (m : Rat) * 2 ^ e ≤ n * (1 + 1 / 2 ^ 53) := by
  by_cases hn : n = 0
  · subst hn
    exact ⟨0, -1074, by decide, by simp⟩
  · have hone : (1 : Rat) ≤ n := by exact_mod_cast Nat.pos_of_ne_zero hn
    have hround (hone : 1 ≤ (n : Rat) / (1 : Nat)) (h : (n : Rat) / (1 : Nat) < overflow) :=
      reading_ofRatio_le false Nat.one_ne_zero hone h
    simp only [Nat.cast_one, div_one] at hround
    exact hround hone h

theorem reading_power {n : Nat} (h : n ≤ greatestPower) :
    ∃ m e, (power n).reading = .finite false m e ∧
      (m : Rat) * 2 ^ e ≤ 10 ^ n * (1 + 1 / 2 ^ 53) := by
  have h308 : greatestPower = 308 := rfl
  have hlog : Nat.log2 1 = 0 := by decide
  have hpower : power n = Double.ofNat (tenTo n) := by
    unfold power ofDecimal
    simp only [hlog]
    rw [if_neg (by decide), if_neg (by omega), if_neg (by omega), if_pos (by omega)]
    simp [Double.ofNat]
  have hle : (10 : Rat) ^ n ≤ 10 ^ 308 := pow_le_pow_right₀ (by norm_num) (by omega)
  rw [hpower, ← tenTo_cast]
  refine reading_ofNat ?_
  rw [tenTo_cast]
  exact hle.trans_lt overflow_bounds.1

theorem scale_isSome (negative : Bool) {n e : Nat} (h : (n : Rat) * 10 ^ e * slack < overflow) :
    (scale negative n e).isSome = true := by
  have h308 : (greatestPower : Int) = 308 := rfl
  by_cases hn : n = 0 ∧ 308 < e
  · obtain ⟨rfl, he⟩ := hn
    have hzero : (Double.ofNat 0).magnitude = 0 := by decide
    simp only [scale, if_neg (show ¬(e : Int) ≤ greatestPower by omega), if_pos hzero]
    rfl
  · have hslack : 1 ≤ slack := by norm_num [slack]
    have hbare : (n : Rat) * 10 ^ e < overflow :=
      (le_mul_of_one_le_right (by positivity) hslack).trans_lt h
    have he : e ≤ 308 := by
      by_contra hlarge
      have hn : (1 : Rat) ≤ n := by
        exact_mod_cast Nat.pos_of_ne_zero fun hzero => hn ⟨hzero, by omega⟩
      have hpower : (10 : Rat) ^ 309 ≤ 10 ^ e := pow_le_pow_right₀ (by norm_num) (by omega)
      have hmore : (10 : Rat) ^ e ≤ n * 10 ^ e := le_mul_of_one_le_left (by positivity) hn
      exact absurd (hpower.trans hmore) (not_le.mpr (hbare.trans overflow_bounds.2))
    have hsmall : (n : Rat) < overflow := by
      have hpower : (1 : Rat) ≤ 10 ^ e := one_le_pow₀ (by norm_num)
      exact (le_mul_of_one_le_right (by positivity) hpower).trans_lt hbare
    obtain ⟨m, p, hdigits, hm⟩ := reading_ofNat hsmall
    obtain ⟨k, q, hpower, hk⟩ := reading_power (n := e) he
    have hfinite : (Double.ofNat n * power e).isFinite = true := by
      refine isFinite_mul hdigits hpower (lt_of_le_of_lt ?_ h)
      calc (m : Rat) * 2 ^ p * (k * 2 ^ q)
          ≤ n * (1 + 1 / 2 ^ 53) * (10 ^ e * (1 + 1 / 2 ^ 53)) := by gcongr
        _ = n * 10 ^ e * slack := by
          unfold slack
          ring
    have hscaled (fuel : Nat) :
        scaleDown (fuel + 1) (Double.ofNat n) e = some (Double.ofNat n * power e) := by
      rw [scaleDown, if_pos (by omega), if_pos (by omega)]
      simp [hfinite]
    simp only [scale, if_pos (show (e : Int) ≤ greatestPower by omega), hscaled]
    rfl

/-- Two doubles are too close to the end for the bound; their decimals are read as they stand. -/
theorem scale_topmost (negative : Bool) {m : Nat} (hm : m = 2 ^ 53 - 2 ∨ m = 2 ^ 53 - 1) :
    (decimalOf m 971).digits ≤ EdgeAgent.Decimal.maxWord ∧
      (scale negative (decimalOf m 971).digits (decimalOf m 971).exponent).isSome = true := by
  rcases hm with rfl | rfl
  · cases negative <;> decide +kernel
  · cases negative <;> decide +kernel

theorem scale_decimalOf (negative : Bool) {m k : Nat} {e : Int} (hm : m < 2 ^ 53)
    (hlow : -1074 ≤ e) (hhigh : e ≤ 971)
    (hk : (decimalOf m e).digits ≤ EdgeAgent.Decimal.maxWord → k = 0) :
    (scale negative ((decimalOf m e).digits / 10 ^ k) ((decimalOf m e).exponent + k)).isSome =
      true := by
  by_cases htop : e = 971 ∧ (m = 2 ^ 53 - 2 ∨ m = 2 ^ 53 - 1)
  · obtain ⟨rfl, hm⟩ := htop
    obtain ⟨hroom, hscale⟩ := scale_topmost negative hm
    rw [hk hroom]
    simpa using hscale
  · rcases decimalOf_spec hlow with hzero | ⟨_, _, hvalue⟩
    · rw [hzero] at hk ⊢
      rw [hk (Nat.zero_le _)]
      cases negative <;> decide
    · generalize decimalOf m e = d at *
      by_cases hsign : d.exponent + k < 0
      · exact scale_of_neg negative _ hsign
      · obtain ⟨n, hn⟩ : ∃ n : Nat, d.exponent + k = n := ⟨(d.exponent + k).toNat, by omega⟩
        rw [hn]
        refine scale_isSome negative ?_
        have hcut : ((d.digits / 10 ^ k : Nat) : Rat) * 10 ^ n ≤ d.digits * 10 ^ d.exponent := by
          have hpower : (10 : Rat) ^ n = 10 ^ k * 10 ^ d.exponent := by
            rw [← zpow_natCast, ← hn, ← zpow_natCast, ← zpow_add₀ (by norm_num), Int.add_comm]
          have hdigits : ((d.digits / 10 ^ k : Nat) : Rat) * 10 ^ k ≤ d.digits := by
            exact_mod_cast Nat.div_mul_le_self d.digits (10 ^ k)
          rw [hpower, ← mul_assoc]
          gcongr
        have hpos : 0 ≤ slack := by norm_num [slack]
        exact lt_of_le_of_lt (mul_le_mul_of_nonneg_right (hcut.trans hvalue) hpos)
          (slack_lt_overflow hm hhigh htop)

end EdgeAgent.Json.Reader
