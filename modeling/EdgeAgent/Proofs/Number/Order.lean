import EdgeAgent.Proofs.Number.Rounding
import Mathlib.Order.Monotone.Basic

/-! # The order of doubles

Finite doubles are ranked by what they stand for. All of them are whole multiples of the
smallest positive one, `2 ^ -1074`, so that they compare as integers; only the two zeros are
told apart by their sign.
-/

namespace EdgeAgent.Double

/-- A finite double as a multiple of the smallest positive one. -/
def units (x : Double) : Int :=
  match x.reading with
  | .finite negative m e =>
    let size := m * twoTo (e + 1074).toNat
    if negative then -(size : Int) else size
  | _ => 0

/-- The order by what doubles stand for, a negative zero before a positive one. -/
def AtMost (x y : Double) : Prop :=
  x.units < y.units ∨ x.units = y.units ∧ (y.negative = true → x.negative = true)

/-! ## Magnitudes -/

def size (magnitude : Nat) : Nat :=
  if magnitude < 2 ^ 52 then magnitude
  else (magnitude % 2 ^ 52 + 2 ^ 52) * 2 ^ (magnitude / 2 ^ 52 - 1)

theorem size_lt_succ (m : Nat) : size m < size (m + 1) := by
  unfold size
  by_cases hsub : m + 1 < 2 ^ 52
  · rw [if_pos hsub, if_pos (by omega)]
    omega
  · rw [if_neg hsub]
    by_cases hfirst : m < 2 ^ 52
    · obtain rfl : m = 2 ^ 52 - 1 := by omega
      decide
    · rw [if_neg hfirst]
      by_cases hcarry : m % 2 ^ 52 = 2 ^ 52 - 1
      · obtain ⟨hmod, hdiv⟩ : (m + 1) % 2 ^ 52 = 0 ∧
            (m + 1) / 2 ^ 52 - 1 = (m / 2 ^ 52 - 1) + 1 := by
          omega
        rw [hmod, hdiv, hcarry, Nat.pow_succ _ (m / 2 ^ 52 - 1), ← Nat.mul_assoc,
          Nat.mul_right_comm]
        exact Nat.mul_lt_mul_of_pos_right (by decide) (Nat.two_pow_pos _)
      · obtain ⟨hmod, hdiv⟩ : (m + 1) % 2 ^ 52 = m % 2 ^ 52 + 1 ∧
            (m + 1) / 2 ^ 52 = m / 2 ^ 52 := by
          omega
        rw [hmod, hdiv]
        exact Nat.mul_lt_mul_of_pos_right (by omega) (Nat.two_pow_pos _)

theorem size_strictMono : StrictMono size := strictMono_nat_of_lt_succ size_lt_succ

theorem units_eq {x : Double} (h : x.isFinite) :
    x.units = if x.negative then -(size x.magnitude : Int) else size x.magnitude := by
  have hfinite : x.magnitude < infinityMagnitude := by simpa [isFinite] using h
  have h52 : twoTo 52 = 2 ^ 52 := rfl
  unfold units reading size
  simp only [if_neg (Nat.not_lt.mpr hfinite.le), if_neg hfinite.ne, h52]
  by_cases hsub : x.magnitude < 2 ^ 52
  · have hone : twoTo (-1074 + 1074 : Int).toNat = 1 := rfl
    simp only [if_pos hsub, hone, Nat.mul_one]
  · have hplace : (((x.magnitude / 2 ^ 52 : Nat) : Int) - 1075 + 1074).toNat =
        x.magnitude / 2 ^ 52 - 1 := by
      omega
    simp only [if_neg hsub, hplace]
    rfl

/-! ## Ranks -/

/-- Finite doubles are ranked in the order of what they stand for. -/
theorem rank_le_iff {x y : Double} (hx : x.isFinite) (hy : y.isFinite) :
    x.rank ≤ y.rank ↔ x.AtMost y := by
  have hless : size x.magnitude < size y.magnitude ↔ x.magnitude < y.magnitude :=
    size_strictMono.lt_iff_lt
  have hmore : size y.magnitude < size x.magnitude ↔ y.magnitude < x.magnitude :=
    size_strictMono.lt_iff_lt
  unfold AtMost rank
  rw [units_eq hx, units_eq hy]
  cases x.negative <;> cases y.negative <;> simp <;> omega

end EdgeAgent.Double
