import EdgeAgent.Proofs.Json.ReadsBack
import EdgeAgent.Proofs.Json.Scaling

/-! # Written numbers are read

A whole number of sixty-four bits is read as itself. The text of a double is read
as a double, which need not be the same one.
-/

namespace EdgeAgent.Json.Reader

open EdgeAgent.Decimal (digit? maxWord)
open Nat (toDigits ofDigitChars)

/-! ## Digits -/

/-- No digit comes next. -/
def Stops (cs : List Char) : Prop := ∀ c, cs.head? = some c → c.isDigit = false

theorem digit?_of_isDigit {c : Char} (h : c.isDigit = true) :
    digit? c = some (c.toNat - '0'.toNat) := by
  simp only [Char.isDigit, Bool.and_eq_true, decide_eq_true_eq, ge_iff_le] at h
  exact if_pos h

theorem digit?_of_not_isDigit {c : Char} (h : c.isDigit = false) : digit? c = none := by
  refine if_neg fun hdigit => ?_
  have htrue : c.isDigit = true := by
    simp only [Char.isDigit, Bool.and_eq_true, decide_eq_true_eq, ge_iff_le]
    exact hdigit
  rw [h] at htrue
  cases htrue

theorem ofDigitChars_div (ds : List Char) (hds : ∀ c ∈ ds, c.isDigit = true) (v : Nat) :
    ofDigitChars 10 ds v / 10 ^ ds.length = v := by
  induction ds generalizing v with
  | nil => simp
  | cons c ds ih =>
      have hc := hds c (by simp)
      have hdigit : c.toNat - '0'.toNat < 10 := by
        have hhigh : c.toNat ≤ '9'.toNat := by
          simp only [Char.isDigit, Bool.and_eq_true, decide_eq_true_eq, ge_iff_le] at hc
          exact hc.2
        have hnine : '9'.toNat = 57 := rfl
        have hzero : '0'.toNat = 48 := rfl
        omega
      rw [Nat.ofDigitChars_cons, List.length_cons, Nat.pow_succ, ← Nat.div_div_eq_div_mul,
        ih fun d hd => hds d (List.mem_cons_of_mem _ hd)]
      omega

theorem absorb_stop {cs : List Char} (h : Stops cs) (s : Significand) (kept : Nat) :
    absorb s kept cs = (s, kept, cs) := by
  cases cs with
  | nil => rfl
  | cons c cs => simp only [absorb, digit?_of_not_isDigit (h c rfl)]

theorem absorb_full {ds rest : List Char} (hds : ∀ c ∈ ds, c.isDigit = true) (hrest : Stops rest)
    (v dropped kept : Nat) :
    absorb ⟨v, dropped + 1⟩ kept (ds ++ rest) = (⟨v, dropped + 1 + ds.length⟩, kept, rest) := by
  induction ds generalizing dropped with
  | nil => exact absorb_stop hrest _ kept
  | cons c ds ih =>
      rw [List.cons_append, absorb, digit?_of_isDigit (hds c (by simp))]
      simp only [Nat.succ_ne_zero, false_and, if_false]
      rw [ih fun d hd => hds d (List.mem_cons_of_mem _ hd), List.length_cons]
      congr 2
      omega

/-- The digits that have room make the significand; the others are cut off. -/
theorem absorb_digits {ds : List Char} (hds : ∀ c ∈ ds, c.isDigit = true) {v : Nat}
    (hv : v ≤ maxWord) :
    ∃ cut, (ofDigitChars 10 ds v ≤ maxWord → cut = 0) ∧ cut ≤ ds.length ∧
      ofDigitChars 10 ds v / 10 ^ cut ≤ maxWord ∧
      ∀ kept rest, Stops rest → absorb ⟨v, 0⟩ kept (ds ++ rest) =
        (⟨ofDigitChars 10 ds v / 10 ^ cut, cut⟩, kept + (ds.length - cut), rest) := by
  induction ds generalizing v with
  | nil =>
      refine ⟨0, fun _ => rfl, Nat.le_refl _, by simpa using hv, fun kept rest hrest => ?_⟩
      simpa using absorb_stop hrest ⟨v, 0⟩ kept
  | cons c ds ih =>
      have hc := hds c (by simp)
      have hds' : ∀ d ∈ ds, d.isDigit = true := fun d hd => hds d (List.mem_cons_of_mem _ hd)
      have hvalue : ofDigitChars 10 (c :: ds) v =
          ofDigitChars 10 ds (v * 10 + (c.toNat - '0'.toNat)) := by
        rw [Nat.ofDigitChars_cons, Nat.mul_comm]
      rw [hvalue]
      by_cases hroom : v * 10 + (c.toNat - '0'.toNat) ≤ maxWord
      · obtain ⟨cut, hfits, hcut, hsize, habsorb⟩ := ih hds' hroom
        refine ⟨cut, hfits, Nat.le_succ_of_le hcut, hsize, fun kept rest hrest => ?_⟩
        rw [List.cons_append, absorb, digit?_of_isDigit hc]
        simp only [hroom, and_self, if_true]
        rw [habsorb (kept + 1) rest hrest, List.length_cons]
        congr 2
        omega
      · have hback := ofDigitChars_div ds hds' (v * 10 + (c.toNat - '0'.toNat))
        have hcut : ofDigitChars 10 (c :: ds) v / 10 ^ (ds.length + 1) = v :=
          ofDigitChars_div _ hds v
        rw [hvalue] at hcut
        refine ⟨ds.length + 1, fun hfits => ?_, Nat.le_refl _, ?_, fun kept rest hrest => ?_⟩
        · have hle := Nat.div_le_self
            (ofDigitChars 10 ds (v * 10 + (c.toNat - '0'.toNat))) (10 ^ ds.length)
          omega
        · rw [hcut]
          exact hv
        · rw [hcut, List.cons_append, absorb, digit?_of_isDigit hc]
          simp only [hroom, and_false, if_false]
          rw [absorb_full hds' hrest v 0 kept, List.length_cons, Nat.sub_self]
          congr 2
          omega

theorem exponentDigits_digits {ds rest : List Char} (hds : ∀ c ∈ ds, c.isDigit = true)
    (hrest : Stops rest) {v : Nat} (h : ofDigitChars 10 ds v ≤ maxExponent) :
    exponentDigits v (ds ++ rest) = (some (ofDigitChars 10 ds v), rest) := by
  induction ds generalizing v with
  | nil =>
      cases rest with
      | nil => rfl
      | cons c rest => simp [exponentDigits, digit?_of_not_isDigit (hrest c rfl)]
  | cons c ds ih =>
      have hds' : ∀ d ∈ ds, d.isDigit = true := fun d hd => hds d (List.mem_cons_of_mem _ hd)
      rw [Nat.ofDigitChars_cons, Nat.mul_comm] at h ⊢
      have hback := ofDigitChars_div ds hds' (v * 10 + (c.toNat - '0'.toNat))
      have hle := Nat.div_le_self
        (ofDigitChars 10 ds (v * 10 + (c.toNat - '0'.toNat))) (10 ^ ds.length)
      rw [List.cons_append, exponentDigits, digit?_of_isDigit (hds c (by simp))]
      simp only
      rw [if_pos (by omega), ih hds' h]

/-! ## Numerals -/

/-- Digits as a whole number is written with. -/
structure Numeral (ds : List Char) : Prop where
  digits : ∀ c ∈ ds, c.isDigit = true
  nonempty : ds ≠ []
  /-- There is no idle zero in front. -/
  leading : ds.head? = some '0' → ds = ['0']

theorem head?_toDigits {n : Nat} (hn : 0 < n) : (toDigits 10 n).head? ≠ some '0' := by
  induction n using Nat.strongRecOn with
  | ind n ih =>
      by_cases hsmall : n < 10
      · have hchar : ∀ k < 10, 0 < k → Nat.digitChar k ≠ '0' := by decide
        rw [Nat.toDigits_of_lt_base hsmall]
        simpa using hchar n hsmall hn
      · rw [Nat.toDigits_of_base_le (by omega) (by omega), List.head?_append_of_ne_nil _
          Nat.toDigits_ne_nil]
        exact ih (n / 10) (by omega) (by omega)

theorem numeral_toDigits (n : Nat) : Numeral (toDigits 10 n) := by
  refine ⟨fun c hc => Nat.isDigit_of_mem_toDigits (by decide) (by decide) hc,
    Nat.toDigits_ne_nil, fun hzero => ?_⟩
  by_cases hn : 0 < n
  · exact absurd hzero (head?_toDigits hn)
  · obtain rfl : n = 0 := by omega
    rfl

theorem number_numeral (negative : Bool) {ds : List Char} (hds : Numeral ds)
    (h : ofDigitChars 10 ds 0 ≤ maxWord) (rest : List Char) : Stops rest →
    number negative (ds ++ rest) =
      match rest with
      | '.' :: r => fraction negative (ofDigitChars 10 ds 0) 0 r
      | 'e' :: r => exponent negative (ofDigitChars 10 ds 0) 0 r
      | 'E' :: r => exponent negative (ofDigitChars 10 ds 0) 0 r
      | r => whole negative ⟨ofDigitChars 10 ds 0, 0⟩ r := by
  intro hrest
  obtain ⟨cut, hfits, _, _, habsorb⟩ := absorb_digits hds.digits (Nat.zero_le maxWord)
  obtain rfl := hfits h
  have habsorb := habsorb 0 rest hrest
  obtain ⟨c, more, rfl⟩ := List.exists_cons_of_ne_nil hds.nonempty
  have hc := digit?_of_isDigit (hds.digits c (by simp))
  have hlead : ¬(c = '0' ∧ ((more ++ rest).head?.bind digit?).isSome = true) := by
    rintro ⟨rfl, hdigit⟩
    obtain rfl : more = [] := by simpa using hds.leading rfl
    cases rest with
    | nil => simp at hdigit
    | cons d rest => simp [digit?_of_not_isDigit (hrest d rfl)] at hdigit
  rw [List.cons_append] at habsorb ⊢
  simp only [number, hc, Option.isNone_some, Bool.false_eq_true, if_false, if_neg hlead, habsorb,
    Nat.pow_zero, Nat.div_one]
  rfl

theorem cases_of_follows {rest : List Char} (h : Follows rest) :
    rest = [] ∨ (∃ r, rest = ',' :: r) ∨ ∃ r, rest = '\n' :: r :=
  h.imp id fun h => h.imp List.head?_eq_some_iff.mp List.head?_eq_some_iff.mp

theorem stops_cons {c : Char} (h : c.isDigit = false) (cs : List Char) : Stops (c :: cs) := by
  intro d hd
  obtain rfl := Option.some.inj hd
  exact h

theorem stops_of_follows {rest : List Char} (h : Follows rest) : Stops rest := by
  obtain rfl | ⟨r, rfl⟩ | ⟨r, rfl⟩ := cases_of_follows h
  · exact nofun
  · exact stops_cons rfl r
  · exact stops_cons rfl r

theorem number_whole (negative : Bool) {ds rest : List Char} (hds : Numeral ds)
    (h : ofDigitChars 10 ds 0 ≤ maxWord) (hrest : Follows rest) :
    number negative (ds ++ rest) = whole negative ⟨ofDigitChars 10 ds 0, 0⟩ rest := by
  rw [number_numeral negative hds h rest (stops_of_follows hrest)]
  obtain rfl | ⟨r, rfl⟩ | ⟨r, rfl⟩ := cases_of_follows hrest
  · rfl
  · rfl
  · rfl

theorem fraction_finish (negative : Bool) {ds : List Char} (hds : ∀ c ∈ ds, c.isDigit = true)
    (hne : ds ≠ []) {v : Nat} (hv : v ≤ maxWord) :
    ∃ n e, (scale negative n e).isSome = true ∧
      ∀ rest, Follows rest → fraction negative v 0 (ds ++ rest) = finish negative n e rest := by
  obtain ⟨cut, _, hcut, hsize, habsorb⟩ := absorb_digits hds hv
  refine ⟨ofDigitChars 10 ds v / 10 ^ cut, 0 - (0 + (ds.length - cut) : Nat), ?_, ?_⟩
  · by_cases hall : cut = ds.length
    · have hzero : (0 : Int) - (0 + (ds.length - cut) : Nat) = (0 : Nat) := by omega
      rw [hzero]
      refine scale_isSome negative ?_
      have hcast : ((ofDigitChars 10 ds v / 10 ^ cut : Nat) : Rat) ≤ 2 ^ 64 := by
        have hword : maxWord ≤ 2 ^ 64 := by decide
        exact_mod_cast hsize.trans hword
      have hslack : (2 : Rat) ^ 64 * slack < 10 ^ 20 := by norm_num [slack]
      have hpos : 0 ≤ slack := by norm_num [slack]
      have hfar : (10 : Rat) ^ 20 ≤ 10 ^ 308 := pow_le_pow_right₀ (by norm_num) (by omega)
      rw [pow_zero, mul_one]
      exact (mul_le_mul_of_nonneg_right hcast hpos).trans_lt
        (hslack.trans_le (hfar.trans overflow_bounds.1.le))
    · exact scale_of_neg negative _ (by omega)
  · intro rest hrest
    obtain ⟨c, more, rfl⟩ := List.exists_cons_of_ne_nil hne
    have hc := digit?_of_isDigit (hds c (by simp))
    have habsorb := habsorb 0 rest (stops_of_follows hrest)
    rw [List.cons_append] at habsorb ⊢
    simp only [fraction, hc, Option.isNone_some, Bool.false_eq_true, if_false, habsorb]
    obtain rfl | ⟨r, rfl⟩ | ⟨r, rfl⟩ := cases_of_follows hrest
    · rfl
    · rfl
    · rfl

/-! ## Whole numbers -/

/-- The whole numbers that sixty-four bits hold, with a sign or without. -/
def InRange (n : Int) : Prop := -2 ^ 63 ≤ n ∧ n < 2 ^ 64

instance (n : Int) : Decidable (InRange n) :=
  inferInstanceAs (Decidable (-2 ^ 63 ≤ n ∧ n < 2 ^ 64))

theorem value_toDigits (n : Nat) : ofDigitChars 10 (toDigits 10 n) 0 = n :=
  Nat.ofDigitChars_toDigits (by decide) (by decide)

theorem number_natural (negative : Bool) {n : Nat} (h : n ≤ maxWord) {rest : List Char}
    (hrest : Follows rest) :
    number negative (toDigits 10 n ++ rest) = whole negative ⟨n, 0⟩ rest := by
  rw [number_whole negative (numeral_toDigits n) (by rwa [value_toDigits]) hrest, value_toDigits]

/-! ## Exponents -/

theorem exponent_sign (negative : Bool) (n : Nat) (start : Int) {first : Int}
    (hfirst : first.natAbs ≤ maxExponent) {rest : List Char} (hrest : Stops rest) :
    exponent negative n start ((if 0 ≤ first then '+' else '-') ::
      (toDigits 10 first.natAbs ++ rest)) = finish negative n (start + first) rest := by
  have hdigits := (numeral_toDigits first.natAbs).digits
  have hread := exponentDigits_digits (v := 0) hdigits hrest (by rwa [value_toDigits])
  rw [value_toDigits] at hread
  obtain ⟨c, more, hcons⟩ := List.exists_cons_of_ne_nil (numeral_toDigits first.natAbs).nonempty
  have hc := digit?_of_isDigit (hdigits c (by simp [hcons]))
  rw [hcons, List.cons_append] at hread ⊢
  by_cases hsign : 0 ≤ first
  · have habs : start + (first.natAbs : Int) = start + first := by omega
    simp only [exponent, if_pos hsign, hc, hread, Option.isNone_some, Bool.false_eq_true, if_false,
      habs]
  · have habs : start - (first.natAbs : Int) = start + first := by omega
    simp only [exponent, if_neg hsign, hc, hread, Option.isNone_some, Bool.false_eq_true, if_false,
      if_true, habs]

/-! ## Doubles -/

open Shortest

def pointed : List Char → List Char
  | [] => []
  | [c] => [c]
  | c :: rest => c :: '.' :: rest

theorem write_toList (l : Layout) (d : Shortest.Decimal) :
    (l.write d).toList =
      let ds := toDigits 10 d.digits
      let first : Int := ds.length + d.exponent - 1
      if l.least ≤ first ∧ first ≤ l.greatest then
        if 0 ≤ d.exponent then ds ++ List.replicate d.exponent.toNat '0' ++ ['.', '0']
        else if 0 ≤ first then
          ds.take (first + 1).toNat ++ '.' :: ds.drop (first + 1).toNat
        else '0' :: '.' :: (List.replicate (-first - 1).toNat '0' ++ ds)
      else
        pointed ds ++
          ((if 0 ≤ first then l.large else l.small).toList ++ toDigits 10 first.natAbs) := by
  have hdigits (n : Nat) : (toString n).toList = toDigits 10 n := Nat.toList_repr
  have hlength : (toString d.digits).length = (toDigits 10 d.digits).length := by
    rw [← String.length_toList, hdigits]
  simp only [Layout.write, hlength, hdigits]
  split
  · split
    · show (toString d.digits ++ String.ofList _ ++ ".0").toList = _
      simp
    · split
      · simp
      · show ("0." ++ String.ofList _ ++ toString d.digits).toList = _
        simp
  · rw [String.toList_append, String.toList_append, hdigits, List.append_assoc]
    congr 1
    generalize toDigits 10 d.digits = ds
    cases ds with
    | nil => rfl
    | cons c rest =>
        cases rest with
        | nil => simp [pointed]
        | cons c' rest => simp [pointed]

theorem number_positional (negative : Bool) (whole part : List Char) (hwhole : Numeral whole)
    (hsize : whole.length ≤ 16) (hpart : ∀ c ∈ part, c.isDigit = true) (hne : part ≠ []) :
    ∃ n e, (scale negative n e).isSome = true ∧ ∀ rest, Follows rest →
      number negative (whole ++ '.' :: part ++ rest) = finish negative n e rest := by
  have hroom : ofDigitChars 10 whole 0 ≤ maxWord := by
    have hzero := ofDigitChars_div whole hwhole.digits 0
    rw [Nat.div_eq_zero_iff_lt (Nat.pow_pos (by decide))] at hzero
    have hpower : 10 ^ whole.length ≤ 10 ^ 16 := Nat.pow_le_pow_right (by decide) hsize
    have hword : 10 ^ 16 ≤ maxWord := by decide
    omega
  obtain ⟨n, e, hscale, hfraction⟩ := fraction_finish negative hpart hne hroom
  refine ⟨n, e, hscale, fun rest hrest => ?_⟩
  rw [List.append_assoc, List.cons_append,
    number_numeral negative hwhole hroom _ (stops_cons rfl _)]
  exact hfraction rest hrest

theorem isDigit_zeros {n : Nat} {c : Char} (hc : c ∈ List.replicate n '0') : c.isDigit = true := by
  rw [List.eq_of_mem_replicate hc]
  rfl

theorem number_write_positional (negative : Bool) {d : Shortest.Decimal}
    (hpos : 0 < d.digits ∨ d = ⟨0, 0⟩)
    (hlow : -5 ≤ (toDigits 10 d.digits).length + d.exponent - 1)
    (hhigh : (toDigits 10 d.digits).length + d.exponent - 1 ≤ 15) :
    ∃ n e, (scale negative n e).isSome = true ∧ ∀ rest, Follows rest →
      number negative ((doubleLayout.write d).toList ++ rest) = finish negative n e rest := by
  have hnumeral := numeral_toDigits d.digits
  rw [write_toList]
  simp only
  rw [if_pos ⟨hlow, hhigh⟩]
  split
  · have hwhole : Numeral (toDigits 10 d.digits ++ List.replicate d.exponent.toNat '0') := by
      rcases hpos with hpos | rfl
      · refine ⟨fun c hc => ?_, by simp [hnumeral.nonempty], fun hzero => ?_⟩
        · rcases List.mem_append.mp hc with hc | hc
          · exact hnumeral.digits c hc
          · exact isDigit_zeros hc
        · rw [List.head?_append_of_ne_nil _ hnumeral.nonempty] at hzero
          exact absurd hzero (head?_toDigits hpos)
      · exact hnumeral
    exact number_positional negative _ ['0'] hwhole (by simp; omega)
      (fun _ => isDigit_zeros (n := 1)) (by decide)
  · rename_i hpart
    have hpos := hpos.resolve_right fun hzero => hpart (by simp [hzero])
    split
    · rename_i hfirst
      refine number_positional negative _ _ ⟨?_, ?_, fun hzero => ?_⟩ (by simp; omega) ?_ ?_
      · exact fun c hc => hnumeral.digits c (List.mem_of_mem_take hc)
      · rw [← List.length_pos_iff]
        rw [List.length_take]
        have hlength := List.length_pos_iff.mpr hnumeral.nonempty
        omega
      · rw [List.head?_take, if_neg (by omega)] at hzero
        exact absurd hzero (head?_toDigits hpos)
      · exact fun c hc => hnumeral.digits c (List.mem_of_mem_drop hc)
      · rw [← List.length_pos_iff, List.length_drop]
        omega
    · refine number_positional negative ['0'] _ (numeral_toDigits 0) (by decide) ?_ ?_
      · intro c hc
        rcases List.mem_append.mp hc with hc | hc
        · exact isDigit_zeros hc
        · exact hnumeral.digits c hc
      · simp [hnumeral.nonempty]

theorem number_pointed (negative : Bool) {ds : List Char} (hds : ∀ c ∈ ds, c.isDigit = true)
    (hne : ds ≠ []) :
    ∃ cut : Nat, (ofDigitChars 10 ds 0 ≤ maxWord → cut = 0) ∧
      ∀ cs, number negative (pointed ds ++ 'e' :: cs) =
        exponent negative (ofDigitChars 10 ds 0 / 10 ^ cut) (cut + 1 - ds.length) cs := by
  obtain ⟨c, more, rfl⟩ := List.exists_cons_of_ne_nil hne
  have hone : Numeral [c] := by
    refine ⟨fun d hd => hds d (by simp_all), by simp, fun hzero => ?_⟩
    rw [Option.some.inj hzero]
  have hroom : ofDigitChars 10 [c] 0 ≤ maxWord := by
    have hzero := ofDigitChars_div [c] hone.digits 0
    have hword : 10 ≤ maxWord := by decide
    simp only [List.length_singleton, Nat.pow_one] at hzero
    omega
  cases more with
  | nil =>
      refine ⟨0, fun _ => rfl, fun cs => ?_⟩
      show number negative ([c] ++ 'e' :: cs) = _
      rw [number_numeral negative hone hroom _ (stops_cons rfl _)]
      simp only [Nat.pow_zero, Nat.div_one]
      rfl
  | cons d more =>
      have hmore : ∀ k ∈ d :: more, k.isDigit = true :=
        fun k hk => hds k (List.mem_cons_of_mem _ hk)
      obtain ⟨cut, hfits, hcut, _, habsorb⟩ := absorb_digits hmore hroom
      have hall : ofDigitChars 10 (d :: more) (ofDigitChars 10 [c] 0) =
          ofDigitChars 10 (c :: d :: more) 0 := by
        rw [← Nat.ofDigitChars_append]
        rfl
      rw [hall] at hfits habsorb
      refine ⟨cut, hfits, fun cs => ?_⟩
      show number negative ([c] ++ '.' :: (d :: more ++ 'e' :: cs)) = _
      rw [number_numeral negative hone hroom _ (stops_cons rfl _)]
      have hd := digit?_of_isDigit (hmore d (by simp))
      have habsorb := habsorb 0 _ (stops_cons (c := 'e') rfl cs)
      rw [List.cons_append] at habsorb ⊢
      simp only [fraction, hd, Option.isNone_some, Bool.false_eq_true, if_false, habsorb]
      congr 1
      simp only [List.length_cons] at hcut ⊢
      omega

theorem number_write_exponential (negative : Bool) {d : Shortest.Decimal} {first : Int}
    (hfirst : (toDigits 10 d.digits).length + d.exponent - 1 = first)
    (hout : ¬(-5 ≤ first ∧ first ≤ 15)) (hsize : first.natAbs ≤ maxExponent) :
    ∃ cut : Nat, (d.digits ≤ maxWord → cut = 0) ∧ ∀ rest, Follows rest →
      number negative ((doubleLayout.write d).toList ++ rest) =
        finish negative (d.digits / 10 ^ cut) (d.exponent + cut) rest := by
  have hnumeral := numeral_toDigits d.digits
  obtain ⟨cut, hfits, hread⟩ := number_pointed negative hnumeral.digits hnumeral.nonempty
  rw [value_toDigits] at hfits hread
  refine ⟨cut, hfits, fun rest hrest => ?_⟩
  have hletter : (if 0 ≤ first then doubleLayout.large else doubleLayout.small).toList =
      ['e', if 0 ≤ first then '+' else '-'] := by
    split
    · rfl
    · rfl
  have htext : (doubleLayout.write d).toList ++ rest = pointed (toDigits 10 d.digits) ++
      'e' :: (if 0 ≤ first then '+' else '-') :: (toDigits 10 first.natAbs ++ rest) := by
    rw [write_toList]
    simp only [hfirst]
    rw [if_neg (show ¬(doubleLayout.least ≤ first ∧ first ≤ doubleLayout.greatest) from hout),
      hletter]
    simp
  rw [htext, hread, exponent_sign negative _ _ hsize (stops_of_follows hrest)]
  congr 1
  omega

theorem length_toDigits_lt {d m : Nat} {p e : Int} (hd : 0 < d) (hm : m < 2 ^ 53) (he : e ≤ 971)
    (h : (d : Rat) * 10 ^ p ≤ (m + 1 / 2) * 2 ^ e) : (toDigits 10 d).length + p - 1 < 309 := by
  have hten : (0 : Rat) < 10 := by norm_num
  have hdigits : (10 : Rat) ^ ((toDigits 10 d).length - 1) ≤ d := by
    by_cases hone : (toDigits 10 d).length = 1
    · rw [hone]
      exact_mod_cast hd
    · have hlength := Nat.length_toDigits_pos (b := 10) (n := d)
      have hmany : ¬(toDigits 10 d).length ≤ (toDigits 10 d).length - 1 := by omega
      rw [Nat.length_toDigits_le_iff (by decide) (by omega), not_lt] at hmany
      exact_mod_cast hmany
  have hvalue : ((m : Rat) + 1 / 2) * 2 ^ e ≤ Double.overflow := by
    have hcast : (m : Rat) + 1 ≤ 2 ^ 53 := by exact_mod_cast hm
    have hpower : (2 : Rat) ^ e ≤ 2 ^ 971 := by
      rw [← zpow_natCast]
      exact zpow_le_zpow_right₀ (by norm_num) (by omega)
    exact mul_le_mul (by linarith) hpower (by positivity) (by linarith)
  have hsplit : (10 : Rat) ^ ((toDigits 10 d).length + p - 1) =
      10 ^ ((toDigits 10 d).length - 1) * 10 ^ p := by
    have hlength := Nat.length_toDigits_pos (b := 10) (n := d)
    rw [← zpow_natCast, ← zpow_add₀ hten.ne']
    congr 1
    omega
  have hbound : (10 : Rat) ^ ((toDigits 10 d).length + p - 1) < 10 ^ (309 : Int) := by
    rw [hsplit]
    calc (10 : Rat) ^ ((toDigits 10 d).length - 1) * 10 ^ p
        ≤ d * 10 ^ p := mul_le_mul_of_nonneg_right hdigits (by positivity)
      _ ≤ Double.overflow := h.trans hvalue
      _ < 10 ^ (309 : Int) := by exact_mod_cast overflow_bounds.2
  exact (zpow_lt_zpow_iff_right₀ (by norm_num)).mp hbound

/-- The text of a double is read as far as it goes, and stays in range. -/
theorem number_write (negative : Bool) {m : Nat} {e : Int} (hm : m < 2 ^ 53) (hlow : -1074 ≤ e)
    (hhigh : e ≤ 971) :
    ∃ n p, (scale negative n p).isSome = true ∧ ∀ rest, Follows rest →
      number negative ((doubleLayout.write (decimalOf m e)).toList ++ rest) =
        finish negative n p rest := by
  have hpos : 0 < (decimalOf m e).digits ∨ decimalOf m e = ⟨0, 0⟩ :=
    (decimalOf_spec hlow).symm.imp_left And.left
  by_cases hpositional :
    -5 ≤ (toDigits 10 (decimalOf m e).digits).length + (decimalOf m e).exponent - 1 ∧
      (toDigits 10 (decimalOf m e).digits).length + (decimalOf m e).exponent - 1 ≤ 15
  · exact number_write_positional negative hpos hpositional.1 hpositional.2
  · obtain hzero | ⟨hdigits, hplace, hvalue⟩ := decimalOf_spec (m := m) hlow
    · rw [hzero] at hpositional
      exact absurd (by decide) hpositional
    · have hsize : ((toDigits 10 (decimalOf m e).digits).length + (decimalOf m e).exponent -
          1).natAbs ≤ maxExponent := by
        have hshort := length_toDigits_lt hdigits hm hhigh hvalue
        have hlength := Nat.length_toDigits_pos (b := 10) (n := (decimalOf m e).digits)
        have hmax : maxExponent = 2 ^ 31 - 1 := rfl
        omega
      obtain ⟨cut, hfits, hread⟩ := number_write_exponential negative rfl hpositional hsize
      exact ⟨_, _, scale_decimalOf negative hm hlow hhigh hfits, hread⟩

end EdgeAgent.Json.Reader
