import EdgeAgent.Number.Double
import Mathlib.Algebra.Order.Field.Power
import Mathlib.Data.Rat.Cast.Order
import Mathlib.Tactic.FieldSimp
import Mathlib.Tactic.Linarith
import Mathlib.Tactic.NormNum
import Mathlib.Tactic.Positivity
import Mathlib.Tactic.Ring

/-! # How far rounding moves a fraction

The double of a fraction is finite as long as the fraction stays below halfway
past the greatest double, and it exceeds the fraction by at most half a unit of
the last place.
-/

namespace EdgeAgent.Double

/-- Half a unit below `2 ^ 1024`. From here on fractions are rounded to infinity. -/
def overflow : Rat := (2 ^ 53 - 1 / 2) * 2 ^ 971

theorem twoTo_cast (n : Nat) : ((twoTo n : Nat) : Rat) = 2 ^ n := by
  simp [twoTo]

theorem twoTo_pos (n : Nat) : 0 < twoTo n := Nat.pow_pos (by decide)

/-! ## Bits -/

theorem toNat_pack (s : Bool) {n : Nat} (h : n < twoTo 63) :
    (pack s n).bits.toNat = if s then n + twoTo 63 else n := by
  have h63 : twoTo 63 = 2 ^ 63 := rfl
  rw [h63] at h ⊢
  have hsize (k : Nat) (hk : k < 2 ^ 64) : k.toUInt64.toNat = k := Nat.mod_eq_of_lt hk
  cases s with
  | true =>
      show (n + 2 ^ 63).toUInt64.toNat = n + 2 ^ 63
      exact hsize _ (by omega)
  | false =>
      show n.toUInt64.toNat = n
      exact hsize _ (by omega)

theorem magnitude_pack (s : Bool) {n : Nat} (h : n < twoTo 63) : (pack s n).magnitude = n := by
  unfold magnitude
  rw [toNat_pack s h]
  cases s with
  | true => simp [Nat.mod_eq_of_lt h]
  | false => simp [Nat.mod_eq_of_lt h]

theorem negative_pack (s : Bool) {n : Nat} (h : n < twoTo 63) : (pack s n).negative = s := by
  unfold negative
  rw [toNat_pack s h]
  cases s with
  | true => simp
  | false => simpa using h

theorem reading_pack (s : Bool) {k r : Nat} (hnormal : k = 0 ∨ 2 ^ 52 ≤ r) (hr : r ≤ 2 ^ 53)
    (hfinite : k * twoTo 52 + r < infinityMagnitude) :
    ∃ m e, (pack s (k * twoTo 52 + r)).reading = .finite s m e ∧
      (m : Rat) * 2 ^ e = r * 2 ^ ((k : Int) - 1074) := by
  have h52 : twoTo 52 = 2 ^ 52 := rfl
  have hinfinity : infinityMagnitude = 2047 * 2 ^ 52 := rfl
  have h63 : twoTo 63 = 2048 * 2 ^ 52 := rfl
  have hsmall : k * twoTo 52 + r < twoTo 63 := by omega
  simp only [reading, magnitude_pack s hsmall, negative_pack s hsmall,
    if_neg (Nat.not_lt.mpr (Nat.le_of_lt hfinite)), if_neg (Nat.ne_of_lt hfinite)]
  rw [h52] at hfinite ⊢
  by_cases hsub : k * 2 ^ 52 + r < 2 ^ 52
  · obtain rfl : k = 0 := by omega
    exact ⟨_, _, if_pos hsub, by simp⟩
  · rw [if_neg hsub]
    by_cases hcarry : r = 2 ^ 53
    · obtain ⟨hmod, hdiv⟩ : (k * 2 ^ 52 + r) % 2 ^ 52 = 0 ∧ (k * 2 ^ 52 + r) / 2 ^ 52 = k + 2 := by
        omega
      refine ⟨_, _, rfl, ?_⟩
      have hplace : ((k + 2 : Nat) : Int) - 1075 = ((k : Int) - 1074) + 1 := by omega
      rw [hmod, hdiv, hcarry, hplace, zpow_add_one₀ (by norm_num)]
      push_cast
      ring
    · obtain ⟨hmod, hdiv⟩ : (k * 2 ^ 52 + r) % 2 ^ 52 = r - 2 ^ 52 ∧
          (k * 2 ^ 52 + r) / 2 ^ 52 = k + 1 := by omega
      refine ⟨_, _, rfl, ?_⟩
      have hplace : ((k + 1 : Nat) : Int) - 1075 = (k : Int) - 1074 := by omega
      have hr : r - 2 ^ 52 + 2 ^ 52 = r := by omega
      rw [hmod, hdiv, hplace, hr]

/-! ## Places -/

theorem roundHalfEven_le (n : Nat) {d : Nat} (hd : 0 < d) :
    (roundHalfEven n d : Rat) ≤ n / d + 1 / 2 := by
  have hdiv : d * (n / d) + n % d = n := Nat.div_add_mod n d
  have hcast : (n : Rat) = d * (n / d : Nat) + (n % d : Nat) := by
    exact_mod_cast hdiv.symm
  have hd' : (0 : Rat) < d := by exact_mod_cast hd
  simp only [roundHalfEven]
  split
  · rename_i hup
    have hhalf : d ≤ 2 * (n % d) := by
      simp only [Bool.or_eq_true, decide_eq_true_eq, Bool.and_eq_true, beq_iff_eq] at hup
      omega
    have hhalf' : (d : Rat) ≤ 2 * (n % d : Nat) := by exact_mod_cast hhalf
    rw [hcast, add_div, mul_div_cancel_left₀ _ hd'.ne']
    have hpart : (1 : Rat) / 2 ≤ (n % d : Nat) / d := by
      rw [div_le_div_iff₀ (by norm_num) hd']
      linarith
    push_cast
    linarith
  · have hpart : (0 : Rat) ≤ (n % d : Nat) / d := by positivity
    rw [hcast, add_div, mul_div_cancel_left₀ _ hd'.ne']
    linarith

theorem div_le_roundHalfEven (n d : Nat) : n / d ≤ roundHalfEven n d := by
  simp only [roundHalfEven]
  split
  · exact Nat.le_succ _
  · exact Nat.le_refl _

theorem roundHalfEven_le_succ (n d : Nat) : roundHalfEven n d ≤ n / d + 1 := by
  simp only [roundHalfEven]
  split
  · exact Nat.le_refl _
  · exact Nat.le_succ _

theorem scaled_ratio (num : Nat) {den : Nat} (hden : 0 < den) (e : Int) :
    0 < (scaled num den e).2 ∧
      ((scaled num den e).1 : Rat) / (scaled num den e).2 = num / den / 2 ^ e := by
  unfold scaled
  split
  · rename_i he
    refine ⟨Nat.mul_pos hden (twoTo_pos _), ?_⟩
    have hpower : (2 : Rat) ^ e = 2 ^ e.toNat := by
      rw [← zpow_natCast, Int.toNat_of_nonneg he]
    rw [hpower, Nat.cast_mul, twoTo_cast, div_div]
  · rename_i he
    refine ⟨hden, ?_⟩
    have hpower : (2 : Rat) ^ e = (2 ^ (-e).toNat)⁻¹ := by
      rw [← zpow_natCast, Int.toNat_of_nonneg (by omega), zpow_neg, inv_inv]
    rw [hpower, Nat.cast_mul, twoTo_cast, div_inv_eq_mul]
    ring

theorem ratio_bounds {num den : Nat} (hnum : num ≠ 0) (hden : den ≠ 0) :
    (2 : Rat) ^ ((num.log2 : Int) - den.log2 - 1) < num / den ∧
      (num : Rat) / den < 2 ^ ((num.log2 : Int) - den.log2 + 1) := by
  have two : (2 : Rat) ≠ 0 := by norm_num
  have cast_le {k n : Nat} (h : 2 ^ k ≤ n) : (2 : Rat) ^ (k : Int) ≤ n := by
    rw [zpow_natCast]
    exact_mod_cast h
  have cast_lt {k n : Nat} (h : n < 2 ^ (k + 1)) : (n : Rat) < 2 ^ ((k : Int) + 1) := by
    rw [← Nat.cast_succ, zpow_natCast]
    exact_mod_cast h
  have hnumlow := cast_le (Nat.log2_self_le hnum)
  have hdenlow := cast_le (Nat.log2_self_le hden)
  have hnumhigh := cast_lt (Nat.lt_log2_self (n := num))
  have hdenhigh := cast_lt (Nat.lt_log2_self (n := den))
  have hpos : (0 : Rat) < den := by exact_mod_cast Nat.pos_of_ne_zero hden
  constructor
  · rw [lt_div_iff₀ hpos]
    calc (2 : Rat) ^ ((num.log2 : Int) - den.log2 - 1) * den
        < 2 ^ ((num.log2 : Int) - den.log2 - 1) * 2 ^ ((den.log2 : Int) + 1) := by gcongr
      _ = 2 ^ (num.log2 : Int) := by
        rw [← zpow_add₀ two]
        congr 1
        ring
      _ ≤ num := hnumlow
  · rw [div_lt_iff₀ hpos]
    calc (num : Rat) < 2 ^ ((num.log2 : Int) + 1) := hnumhigh
      _ = 2 ^ ((num.log2 : Int) - den.log2 + 1) * 2 ^ (den.log2 : Int) := by
        rw [← zpow_add₀ two]
        congr 1
        ring
      _ ≤ 2 ^ ((num.log2 : Int) - den.log2 + 1) * den := by gcongr

theorem two_pow_le_div {num den : Nat} (hden : 0 < den) (k : Nat) :
    2 ^ k ≤ num / den ↔ (2 : Rat) ^ k ≤ num / den := by
  rw [Nat.le_div_iff_mul_le hden, le_div_iff₀ (by exact_mod_cast hden)]
  exact_mod_cast Iff.rfl

/-- In its place a fraction has fifty-three bits before the point, or it is in the
last place of all. -/
theorem placeOf_spec {num den : Nat} (hnum : num ≠ 0) (hden : den ≠ 0) :
    -1074 ≤ placeOf num den ∧ (num : Rat) / den / 2 ^ placeOf num den < 2 ^ 53 ∧
      (placeOf num den = -1074 ∨ (2 : Rat) ^ 52 ≤ num / den / 2 ^ placeOf num den) := by
  obtain ⟨hlow, hhigh⟩ := ratio_bounds hnum hden
  generalize hplace : max ((num.log2 : Int) - den.log2 - 53) (-1074) = low at *
  obtain ⟨hpos, hratio⟩ := scaled_ratio num (Nat.pos_of_ne_zero hden) low
  have two : (2 : Rat) ≠ 0 := by norm_num
  have hcases : placeOf num den =
      if twoTo 53 ≤ (scaled num den low).1 / (scaled num den low).2 then low + 1 else low := by
    simp only [placeOf, hplace]
  have hgrown : 2 ^ 53 ≤ (scaled num den low).1 / (scaled num den low).2 ↔ _ :=
    two_pow_le_div hpos 53
  rw [hratio] at hgrown
  have h53 : twoTo 53 = 2 ^ 53 := rfl
  rw [h53] at hcases
  rw [hcases]
  split
  · rename_i hmany
    have hmany := hgrown.mp hmany
    have hnext : (num : Rat) / den / 2 ^ (low + 1) = num / den / 2 ^ low / 2 := by
      rw [zpow_add_one₀ two, div_mul_eq_div_div]
    have htop : (num : Rat) / den / 2 ^ low < 2 ^ 54 := by
      rw [div_lt_iff₀ (by positivity), ← zpow_natCast, ← zpow_add₀ two]
      refine hhigh.trans_le (zpow_le_zpow_right₀ (by norm_num) ?_)
      omega
    refine ⟨by omega, ?_, .inr ?_⟩
    · rw [hnext]
      linarith
    · rw [hnext]
      linarith
  · rename_i hfew
    refine ⟨by omega, not_le.mp (fun h => hfew (hgrown.mpr h)), ?_⟩
    by_cases hlast : low = -1074
    · exact .inl hlast
    · right
      rw [le_div_iff₀ (by positivity), ← zpow_natCast, ← zpow_add₀ two]
      refine le_trans (zpow_le_zpow_right₀ (by norm_num) ?_) hlow.le
      omega

/-! ## Rounding -/

theorem reading_ofRatio (s : Bool) {num den : Nat} (hnum : num ≠ 0) (hden : den ≠ 0)
    (h : (num : Rat) / den < overflow) :
    ∃ m e, (ofRatio s num den).reading = .finite s m e ∧
      (m : Rat) * 2 ^ e ≤ num / den + 2 ^ placeOf num den / 2 := by
  obtain ⟨hplace, hhigh, hlow⟩ := placeOf_spec hnum hden
  obtain ⟨hpos, hratio⟩ := scaled_ratio num (Nat.pos_of_ne_zero hden) (placeOf num den)
  have hbits : ofRatio s num den = pack s
      (min ((placeOf num den + 1074).toNat * twoTo 52 +
        roundHalfEven (scaled num den (placeOf num den)).1 (scaled num den (placeOf num den)).2)
        infinityMagnitude) := by
    simp only [ofRatio, if_neg hnum]
  generalize placeOf num den = place at *
  generalize scaled num den place = fraction at *
  obtain ⟨n, d⟩ := fraction
  simp only at hpos hratio hbits
  obtain ⟨k, rfl⟩ : ∃ k : Nat, place = (k : Int) - 1074 := ⟨(place + 1074).toNat, by omega⟩
  have hk : ((k : Int) - 1074 + 1074).toNat = k := by omega
  rw [hk] at hbits
  rw [← hratio] at hhigh hlow
  have hround := roundHalfEven_le n hpos
  have hfloor : n / d < 2 ^ 53 :=
    not_le.mp fun hmany => not_le.mpr hhigh ((two_pow_le_div hpos 53).mp hmany)
  have hr := roundHalfEven_le_succ n d
  have hnormal : k = 0 ∨ 2 ^ 52 ≤ roundHalfEven n d := by
    refine hlow.imp (by omega) fun hmany => ?_
    exact ((two_pow_le_div hpos 52).mpr hmany).trans (div_le_roundHalfEven n d)
  have hvalue : (num : Rat) / den = n / d * 2 ^ ((k : Int) - 1074) := by
    rw [hratio, div_mul_cancel₀ _ (by positivity)]
  rw [hvalue] at h
  have hfinite : k * twoTo 52 + roundHalfEven n d < infinityMagnitude := by
    have h52 : twoTo 52 = 2 ^ 52 := rfl
    have hinfinity : infinityMagnitude = 2047 * 2 ^ 52 := rfl
    rw [h52, hinfinity]
    by_cases hlast : k ≤ 2044
    · omega
    · -- In the last place of all but the infinite ones, half a unit is missing to the carry.
      have hmany : (2 : Rat) ^ 52 ≤ n / d := hlow.resolve_left (by omega)
      have hk : k < 2046 := by
        by_contra hbeyond
        have hpower : (2 : Rat) ^ 971 * 2 ≤ 2 ^ ((k : Int) - 1074) := by
          rw [← pow_succ, ← zpow_natCast]
          exact zpow_le_zpow_right₀ (by norm_num) (by omega)
        have hproduct : (2 : Rat) ^ 52 * (2 ^ 971 * 2) ≤ n / d * 2 ^ ((k : Int) - 1074) := by
          gcongr
        have hunit : (0 : Rat) < 2 ^ 971 := by positivity
        unfold overflow at h
        generalize (2 : Rat) ^ 971 = unit at h hproduct hunit
        linarith
      obtain rfl : k = 2045 := by omega
      have hpower : (2 : Rat) ^ (((2045 : Nat) : Int) - 1074) = 2 ^ 971 := by
        rw [← zpow_natCast]
        norm_num
      have hunder : (n : Rat) / d < 2 ^ 53 - 1 / 2 := by
        rw [hpower] at h
        exact lt_of_mul_lt_mul_right h (by positivity)
      have hcast : (roundHalfEven n d : Rat) < (2 ^ 53 : Nat) := by
        push_cast
        linarith
      have hcarry : roundHalfEven n d < 2 ^ 53 := by exact_mod_cast hcast
      omega
  obtain ⟨m, e, hreading, hm⟩ := reading_pack s hnormal (by omega) hfinite
  refine ⟨m, e, ?_, ?_⟩
  · rw [hbits, Nat.min_eq_left (Nat.le_of_lt hfinite), hreading]
  · rw [hm, hvalue]
    calc (roundHalfEven n d : Rat) * 2 ^ ((k : Int) - 1074)
        ≤ (n / d + 1 / 2) * 2 ^ ((k : Int) - 1074) := by gcongr
      _ = n / d * 2 ^ ((k : Int) - 1074) + 2 ^ ((k : Int) - 1074) / 2 := by ring

theorem reading_ofRatio_le (s : Bool) {num den : Nat} (hden : den ≠ 0)
    (hone : 1 ≤ (num : Rat) / den) (h : (num : Rat) / den < overflow) :
    ∃ m e, (ofRatio s num den).reading = .finite s m e ∧
      (m : Rat) * 2 ^ e ≤ num / den * (1 + 1 / 2 ^ 53) := by
  have hnum : num ≠ 0 := by
    rintro rfl
    norm_num at hone
  obtain ⟨m, e, hreading, hm⟩ := reading_ofRatio s hnum hden h
  obtain ⟨_, hhigh, hlow⟩ := placeOf_spec hnum hden
  refine ⟨m, e, hreading, hm.trans ?_⟩
  have hpos : (0 : Rat) < 2 ^ placeOf num den := by positivity
  have hnormal : (2 : Rat) ^ 52 * 2 ^ placeOf num den ≤ num / den := by
    rcases hlow with hlast | hmany
    · rw [hlast, div_lt_iff₀ (by positivity)] at hhigh
      have htiny : (2 : Rat) ^ 53 * 2 ^ (-1074 : Int) < 1 := by
        rw [← zpow_natCast, ← zpow_add₀ (by norm_num)]
        exact zpow_lt_one_of_neg₀ (by norm_num) (by norm_num)
      linarith
    · rwa [le_div_iff₀ hpos] at hmany
  norm_num at hnormal ⊢
  linarith

/-! ## Products -/

theorem isFinite_of_reading {x : Double} {s : Bool} {m : Nat} {e : Int}
    (h : x.reading = .finite s m e) : x.isFinite = true := by
  simp only [reading] at h
  simp only [isFinite, decide_eq_true_eq]
  split at h
  · cases h
  · split at h
    · cases h
    · omega

theorem isFinite_ofRatio (s : Bool) {num den : Nat} (hden : den ≠ 0)
    (h : (num : Rat) / den < overflow) : (ofRatio s num den).isFinite = true := by
  by_cases hnum : num = 0
  · simp only [ofRatio, if_pos hnum]
    cases s <;> decide
  · obtain ⟨_, _, hreading, _⟩ := reading_ofRatio s hnum hden h
    exact isFinite_of_reading hreading

theorem isFinite_mul {x y : Double} {s t : Bool} {m n : Nat} {e f : Int}
    (hx : x.reading = .finite s m e) (hy : y.reading = .finite t n f)
    (h : (m : Rat) * 2 ^ e * (n * 2 ^ f) < overflow) : (x * y).isFinite = true := by
  have hmul : x * y = ofScaled (x.negative != y.negative) (m * n) (e + f) := by
    show mul x y = _
    simp only [mul, hx, hy]
  have hvalue : (m : Rat) * 2 ^ e * (n * 2 ^ f) = (m * n : Nat) * 2 ^ (e + f) := by
    rw [zpow_add₀ (by norm_num)]
    push_cast
    ring
  rw [hvalue] at h
  rw [hmul, ofScaled]
  split
  · rename_i hplace
    refine isFinite_ofRatio _ (by decide) ?_
    have hpower : (2 : Rat) ^ (e + f) = 2 ^ (e + f).toNat := by
      rw [← zpow_natCast, Int.toNat_of_nonneg hplace]
    rw [hpower] at h
    rw [Nat.cast_mul, twoTo_cast]
    simpa using h
  · rename_i hplace
    refine isFinite_ofRatio _ (twoTo_pos _).ne' ?_
    have hpower : (2 : Rat) ^ (e + f) = (2 ^ (-(e + f)).toNat)⁻¹ := by
      rw [← zpow_natCast, Int.toNat_of_nonneg (by omega), zpow_neg, inv_inv]
    rw [hpower] at h
    rw [twoTo_cast, div_eq_mul_inv]
    exact h

end EdgeAgent.Double
