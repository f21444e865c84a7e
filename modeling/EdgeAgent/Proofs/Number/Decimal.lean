import EdgeAgent.Proofs.Json.Numbers

/-! # Whole numbers in decimal text

A whole number is read from its digits, among which leading zeros do not count, and
which may stand behind a plus sign. Nothing else is read, and no number above the limit.
-/

namespace EdgeAgent.Decimal

open Json.Reader (digit?_of_isDigit digit?_of_not_isDigit ofDigitChars_div)
open Nat (ofDigitChars)

/-- The text is written with decimal digits, and perhaps a plus sign before them. -/
def Writes (cs : List Char) (n : Nat) : Prop :=
  ∃ ds, (cs = ds ∨ cs = '+' :: ds) ∧ ds ≠ [] ∧ (∀ c ∈ ds, c.isDigit = true) ∧
    ofDigitChars 10 ds 0 = n

theorem le_ofDigitChars {ds : List Char} (hds : ∀ c ∈ ds, c.isDigit = true) (v : Nat) :
    v ≤ ofDigitChars 10 ds v := by
  have hback := ofDigitChars_div ds hds v
  have hle := Nat.div_le_self (ofDigitChars 10 ds v) (10 ^ ds.length)
  omega

theorem naturalFrom_eq_ok_iff {limit v n : Nat} (h : v ≤ limit) {cs : List Char} :
    naturalFrom limit v cs = .ok n ↔
      (∀ c ∈ cs, c.isDigit = true) ∧ ofDigitChars 10 cs v = n ∧ n ≤ limit := by
  induction cs generalizing v with
  | nil =>
      simp only [naturalFrom, Except.ok.injEq, List.not_mem_nil, false_implies, implies_true,
        Nat.ofDigitChars_nil, true_and]
      exact ⟨fun hn => ⟨hn, hn ▸ h⟩, fun hn => hn.1⟩
  | cons c cs ih =>
      rw [naturalFrom, List.forall_mem_cons]
      cases hc : c.isDigit with
      | false =>
          rw [digit?_of_not_isDigit hc]
          simp
      | true =>
          rw [digit?_of_isDigit hc, Nat.ofDigitChars_cons, Nat.mul_comm 10 v]
          dsimp only
          split
          · rename_i hlarge
            refine iff_of_false nofun fun hn => ?_
            have hle := le_ofDigitChars hn.1.2 (v * 10 + (c.toNat - '0'.toNat))
            omega
          · rename_i hfits
            rw [ih (Nat.le_of_not_lt hfits)]
            simp

theorem natural_eq_ok_iff {limit n : Nat} {text : String} :
    natural limit text = .ok n ↔ Writes text.toList n ∧ n ≤ limit := by
  unfold natural
  split
  · rename_i hempty
    refine iff_of_false nofun ?_
    rintro ⟨⟨ds, hds | hds, hne, -⟩, -⟩
    · exact hne (hds.symm.trans hempty)
    · cases hempty.symm.trans hds
  · rename_i hplus
    refine iff_of_false nofun ?_
    rintro ⟨⟨ds, hds | hds, hne, hdigits, -⟩, -⟩
    · have hdigit := hdigits '+' (hds ▸ hplus ▸ List.mem_cons_self)
      cases hdigit
    · exact hne (List.cons.inj (hplus.symm.trans hds)).2.symm
  · rename_i rest hrest hplus
    rw [naturalFrom_eq_ok_iff (Nat.zero_le _)]
    constructor
    · rintro ⟨hdigits, hvalue, hle⟩
      exact ⟨⟨rest, .inr hplus, hrest, hdigits, hvalue⟩, hle⟩
    · rintro ⟨⟨ds, hds | hds, -, hdigits, hvalue⟩, hle⟩
      · have hdigit := hdigits '+' (hds ▸ hplus ▸ List.mem_cons_self)
        cases hdigit
      · obtain rfl := (List.cons.inj (hplus.symm.trans hds)).2
        exact ⟨hdigits, hvalue, hle⟩
  · rename_i hempty _ hplus
    rw [naturalFrom_eq_ok_iff (Nat.zero_le _)]
    constructor
    · rintro ⟨hdigits, hvalue, hle⟩
      exact ⟨⟨_, .inl rfl, hempty, hdigits, hvalue⟩, hle⟩
    · rintro ⟨⟨ds, hds | hds, -, hdigits, hvalue⟩, hle⟩
      · rw [hds]
        exact ⟨hdigits, hvalue, hle⟩
      · exact (hplus _ hds).elim

end EdgeAgent.Decimal
