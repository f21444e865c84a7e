import EdgeAgent.Json.Complaint
import EdgeAgent.Proofs.Json.Nesting

/-! # Every value is read from its text

Whatever the value, its text is read as a value that is nested as deep. Only
numbers may change: a double comes back as one close to it, and one without a
JSON form as null.
-/

namespace EdgeAgent

def Complaint.IsTooDeep (c : Complaint) : Prop :=
  c.cause = .malformed ∧ c.text = Defect.tooDeep.message

namespace Json

open Printer Reader Shortest
open EdgeAgent.Decimal (digit? maxWord)
open Nat (toDigits)

/-! ## Leaves -/

theorem readsAs_leaf {v w : Json} {c : Char} {letters : List Char} (hc : isSpace c = false)
    (hclose : c ≠ ']') (htext : ∀ level, pretty level v = c :: letters)
    (hvalue : ∀ fuel rest, Follows rest →
      ∃ t, value (fuel + 1) (c :: letters ++ rest) = (t, rest) ∧ Reads w t) :
    ReadsAs v w := by
  refine ⟨fun level => ⟨c, letters, htext level, hc, hclose⟩, fun level fuel rest hrest hfuel => ?_⟩
  rw [htext] at hfuel ⊢
  cases fuel with
  | zero => simp at hfuel
  | succ fuel => exact hvalue fuel rest hrest

theorem readsAs_null {v : Json} (htext : ∀ level, pretty level v = "null".toList) :
    ReadsAs v .null :=
  readsAs_leaf (by decide) (by decide) htext fun _ _ _ => ⟨_, rfl, rfl⟩

theorem readsAs_bool (b : Bool) : ReadsAs (.bool b) (.bool b) := by
  cases b with
  | false =>
      exact readsAs_leaf (c := 'f') (by decide) (by decide) (fun _ => rfl)
        fun _ _ _ => ⟨_, rfl, rfl⟩
  | true =>
      exact readsAs_leaf (c := 't') (by decide) (by decide) (fun _ => rfl)
        fun _ _ _ => ⟨_, rfl, rfl⟩

/-! ## Numbers -/

theorem digit_of_number {negative : Bool} {cs rest : List Char} {w : Json}
    (h : number negative cs = ⟨⟨.ok w, none⟩, rest⟩) :
    ∃ c more, cs = c :: more ∧ (digit? c).isSome = true := by
  unfold number at h
  split at h
  · cases h
  · rename_i c more
    split at h
    · cases h
    · rename_i hdigit
      exact ⟨c, more, rfl, by simpa [Option.isSome_iff_ne_none] using hdigit⟩

theorem ne_of_digit {c d : Char} (hc : (digit? c).isSome = true) (hd : digit? d = none) :
    c ≠ d := by
  rintro rfl
  rw [hd] at hc
  cases hc

theorem isSpace_of_digit {c : Char} (hc : (digit? c).isSome = true) : isSpace c = false := by
  simp [isSpace, ne_of_digit hc (d := ' ') (by decide), ne_of_digit hc (d := '\n') (by decide),
    ne_of_digit hc (d := '\t') (by decide), ne_of_digit hc (d := '\r') (by decide)]

theorem value_digit {c : Char} (hc : (digit? c).isSome = true) (fuel : Nat) (cs : List Char) :
    value (fuel + 1) (c :: cs) = leaf .number (number false (c :: cs)) := by
  simp only [value, skipSpace_cons c (isSpace_of_digit hc)]
  split
  · cases hc
  · cases hc
  · cases hc
  · cases hc
  · cases hc
  · cases hc
  · cases hc
  · rw [if_pos hc]

theorem readsAs_number {v w : Json} (negative : Bool) (body : List Char)
    (hw : Reads w (.number ⟨.ok w, none⟩))
    (htext : ∀ level, pretty level v = (if negative then ['-'] else []) ++ body)
    (hread : ∀ rest, Follows rest → number negative (body ++ rest) = ⟨⟨.ok w, none⟩, rest⟩) :
    ReadsAs v w := by
  obtain ⟨c, more, hbody, hc⟩ := digit_of_number (hread [] (.inl rfl))
  rw [List.append_nil] at hbody
  subst hbody
  cases negative with
  | true =>
      refine readsAs_leaf (c := '-') (by decide) (by decide) htext fun fuel rest hrest => ?_
      refine ⟨_, ?_, hw⟩
      have hvalue : value (fuel + 1) ('-' :: (c :: more ++ rest)) =
          leaf .number (number true (c :: more ++ rest)) := rfl
      exact hvalue.trans (congrArg (leaf .number) (hread rest hrest))
  | false =>
      refine readsAs_leaf (isSpace_of_digit hc) (ne_of_digit hc (by decide)) htext
        fun fuel rest hrest => ⟨_, ?_, hw⟩
      exact (value_digit hc fuel _).trans (congrArg (leaf .number) (hread rest hrest))

theorem pretty_int (n : Int) (level : Nat) :
    pretty level (.int n) = (if decide (n < 0) then ['-'] else []) ++ toDigits 10 n.natAbs := by
  have htext : pretty level (.int n) = (toString n).toList := rfl
  rw [htext, Int.toString_eq_repr, Int.repr_eq_if]
  by_cases hsign : 0 ≤ n
  · have habs : n.toNat = n.natAbs := by omega
    simp [hsign, habs, Nat.toList_repr, Int.not_lt.mpr hsign]
  · have habs : (-n).toNat = n.natAbs := by omega
    simp [hsign, habs, Nat.toList_repr, Int.not_le.mp hsign]

theorem readsAs_int {n : Int} (h : InRange n) : ReadsAs (.int n) (.int n) := by
  have hword : maxWord = 2 ^ 64 - 1 := rfl
  have hsign : twoTo 63 = 2 ^ 63 := rfl
  obtain ⟨hlow, hhigh⟩ := h
  refine readsAs_number _ _ rfl (pretty_int n) fun rest hrest => ?_
  rw [number_natural _ (by omega) hrest]
  by_cases hnegative : n < 0
  · have habs : -(n.natAbs : Int) = n := by omega
    simp only [whole, decide_eq_true hnegative, habs]
    rw [if_neg (by simp), if_neg (by simp), if_neg (by omega)]
  · have habs : (n.natAbs : Int) = n := by omega
    simp only [whole, decide_eq_false hnegative, habs]
    simp

theorem readsAs_double (x : Double) : ∃ w, ReadsAs (.double x) w ∧ w.depth = 0 := by
  have htext (level : Nat) : pretty level (.double x) = (doubleLayout.double x).toList := rfl
  cases hx : x.reading with
  | nan => exact ⟨.null, readsAs_null fun level => by rw [htext, Layout.double, hx], rfl⟩
  | infinite s => exact ⟨.null, readsAs_null fun level => by rw [htext, Layout.double, hx], rfl⟩
  | finite s m e =>
      obtain ⟨hm, hlow, hhigh⟩ := Double.bounds_of_reading hx
      obtain ⟨n, p, hscale, hread⟩ : ∃ n p, (scale s n p).isSome = true ∧ ∀ rest, Follows rest →
          number s ((if m = 0 then "0.0" else doubleLayout.write (decimalOf m e)).toList ++ rest) =
            finish s n p rest := by
        by_cases hzero : m = 0
        · rw [if_pos hzero]
          exact number_positional s ['0'] ['0'] (numeral_toDigits 0) (by decide)
            (fun _ => isDigit_zeros (n := 1)) (by decide)
        · rw [if_neg hzero]
          exact number_write s hm hlow hhigh
      obtain ⟨y, hy⟩ := Option.isSome_iff_exists.mp hscale
      refine ⟨.double y, readsAs_number s
        (if m = 0 then "0.0" else doubleLayout.write (decimalOf m e)).toList rfl
        (fun level => ?_) fun rest hrest => ?_, rfl⟩
      · rw [htext, Layout.double, hx]
        cases s <;> simp
      · rw [hread rest hrest, finish, hy]

/-! ## Values -/

mutual
theorem exists_readsAs {v : Json} (h : v.Ranged) : ∃ w, ReadsAs v w ∧ w.depth = v.depth := by
  cases v with
  | null => exact ⟨.null, readsAs_null fun _ => rfl, rfl⟩
  | bool b => exact ⟨.bool b, readsAs_bool b, rfl⟩
  | int n => exact ⟨.int n, readsAs_int h, rfl⟩
  | double x => exact readsAs_double x
  | str s => exact ⟨.str s, (readsBack_str s).readsAs, rfl⟩
  | arr items =>
      obtain ⟨ws, hws, hdepth⟩ := exists_itemsReadAs h
      exact ⟨.arr ws, readsAs_arr hws, congrArg (· + 1) hdepth⟩
  | obj members =>
      obtain ⟨ks, hks, hdepth⟩ := exists_membersReadAs h
      exact ⟨.obj ks, readsAs_obj hks, congrArg (· + 1) hdepth⟩

theorem exists_itemsReadAs {vs : List Json} (h : RangedItems vs) :
    ∃ ws, List.Forall₂ ReadsAs vs ws ∧ depthItems ws = depthItems vs := by
  cases vs with
  | nil => exact ⟨[], .nil, rfl⟩
  | cons v vs =>
      obtain ⟨w, hw, hdepth⟩ := exists_readsAs h.1
      obtain ⟨ws, hws, hdepths⟩ := exists_itemsReadAs h.2
      exact ⟨w :: ws, .cons hw hws, congrArg₂ max hdepth hdepths⟩

theorem exists_membersReadAs {ms : List (String × Json)} (h : RangedMembers ms) :
    ∃ ks, MembersReadAs ms ks ∧ depthMembers ks = depthMembers ms := by
  cases ms with
  | nil => exact ⟨[], .nil, rfl⟩
  | cons m ms =>
      obtain ⟨n, v⟩ := m
      obtain ⟨w, hw, hdepth⟩ := exists_readsAs h.1
      obtain ⟨ks, hks, hdepths⟩ := exists_membersReadAs h.2
      exact ⟨(n, w) :: ks, .cons ⟨rfl, hw⟩ hks, congrArg₂ max hdepth hdepths⟩
end

/-! ## Documents -/

theorem document?_of_json {whole : List Char} {us : List (Token String × Term)} {room : Nat}
    {v : Json} (h : (Term.object whole us none none).json room = .ok v) :
    v.document?.isSome = true := by
  cases room with
  | zero => cases h
  | succ room =>
      simp only [Term.json] at h
      cases hpairs : Term.jsonMembers room us with
      | error f =>
          rw [hpairs] at h
          cases h
      | ok pairs =>
          rw [hpairs] at h
          cases h
          rfl

theorem names_jsonMembers {ms : List (String × Json)} {us : List (Token String × Term)}
    (h : ReadsMembers ms us) {room : Nat} {pairs : List (String × Json)}
    (hpairs : Term.jsonMembers room us = .ok pairs) : pairs.map (·.1) = ms.map (·.1) := by
  induction ms generalizing us pairs with
  | nil =>
      obtain rfl := h
      cases hpairs
      rfl
  | cons m ms ih =>
      obtain ⟨n, v⟩ := m
      obtain ⟨u, us, rfl, _, hus⟩ := h
      simp only [Term.jsonMembers] at hpairs
      cases hfirst : u.json room with
      | error f =>
          rw [hfirst] at hpairs
          cases hpairs
      | ok w =>
          cases hrest : Term.jsonMembers room us with
          | error f =>
              rw [hfirst, hrest] at hpairs
              cases hpairs
          | ok others =>
              rw [hfirst, hrest] at hpairs
              cases hpairs
              rw [List.map_cons, List.map_cons, ih hus hrest]

theorem names_membersReadAs {ms ks : List (String × Json)} (h : MembersReadAs ms ks) :
    ks.map (·.1) = ms.map (·.1) := by
  induction h with
  | nil => rfl
  | cons hm _ ih => rw [List.map_cons, List.map_cons, hm.1, ih]

theorem keys_of_prettyText {d e : Document} (h : (ofDocument d).Ranged)
    (he : document (ofDocument d).prettyText = .ok e) : e.keys = d.keys := by
  obtain ⟨ks, hks, _⟩ := exists_membersReadAs h
  obtain ⟨t, hread, whole, us, rfl, hus⟩ := read_prettyText (readsAs_obj hks)
  have htext : (ofDocument d).prettyText = (Json.obj d.rows).prettyText := rfl
  have hroom : depthLimit = 126 + 1 := rfl
  simp only [document, htext, hread, hroom, Term.json] at he
  cases hpairs : Term.jsonMembers 126 us with
  | error f =>
      rw [hpairs] at he
      cases he
  | ok pairs =>
      have hnames : pairs.map (·.1) = d.keys :=
        (names_jsonMembers hus hpairs).trans (names_membersReadAs hks)
      have hascending : Ascending pairs := by
        have hkeys : d.keys.Pairwise (· < ·) := List.pairwise_map.mpr d.ascending
        rw [← hnames] at hkeys
        exact List.pairwise_map.mp hkeys
      rw [hpairs] at he
      simp only [bind, Except.bind, Term.closed, ofDocument, document?, skipSpace,
        List.dropWhile_nil, Table.ofList_of_ascending hascending] at he
      rw [← Except.ok.inj he]
      exact hnames

/-- A written document is read unless it is nested too deep. -/
theorem document_prettyText {d : Document} (h : (ofDocument d).Ranged) :
    ((ofDocument d).depth ≤ depthLimit ∧ ∃ e, document (ofDocument d).prettyText = .ok e) ∨
      depthLimit < (ofDocument d).depth ∧
        ∃ c, document (ofDocument d).prettyText = .error c ∧ c.IsTooDeep := by
  obtain ⟨ks, hks, hdepth⟩ := exists_membersReadAs h
  obtain ⟨t, hread, ht⟩ := read_prettyText (readsAs_obj hks)
  have hsame : (ofDocument d).depth = (Json.obj ks).depth := congrArg (· + 1) hdepth.symm
  have hjson := Term.isOk_json ht depthLimit
  have hdeep (h : depthLimit < (Json.obj ks).depth) := Term.json_tooDeep ht h
  obtain ⟨whole, us, rfl, _⟩ := ht
  rw [hsame]
  have htext : (ofDocument d).prettyText = (Json.obj d.rows).prettyText := rfl
  rw [htext]
  by_cases hfits : (Json.obj ks).depth ≤ depthLimit
  · obtain ⟨v, hv⟩ := isOk_iff.mp (hjson.mpr hfits)
    obtain ⟨e, he⟩ := Option.isSome_iff_exists.mp (document?_of_json hv)
    refine .inl ⟨hfits, e, ?_⟩
    simp [document, hread, hv, he, skipSpace]
  · obtain ⟨place, hplace⟩ := hdeep (Nat.lt_of_not_le hfits)
    refine .inr ⟨Nat.lt_of_not_le hfits,
      .ofFault (Json.obj d.rows).prettyText.toList ⟨.tooDeep, place⟩, ?_, rfl, rfl⟩
    simp only [document, hread, hplace]

theorem obj_of_document? {v : Json} {d : Document} (h : v.document? = some d) :
    ∃ members, v = .obj members ∧ d = Table.ofList members := by
  cases v with
  | obj members => exact ⟨members, rfl, (Option.some.inj h).symm⟩
  | _ => cases h

theorem fits_document {s : String} {d : Document} (h : document s = .ok d) :
    (ofDocument d).depth ≤ depthLimit ∧ (ofDocument d).Ranged := by
  simp only [document] at h
  split at h
  · cases h
  · rename_i t rest _ hread
    have hread : (Reader.read s.toList).1 = t := by rw [hread]
    cases hv : t.json depthLimit with
    | error f =>
        rw [hv] at h
        cases h
    | ok v =>
        simp only [hv] at h
        have hfits : (Reader.read s.toList).1.json depthLimit = .ok v := hread ▸ hv
        obtain ⟨hdepth, hranged⟩ := fits_read hfits
        cases hd : v.document? with
        | none =>
            rw [hd] at h
            cases h
        | some e =>
            simp only [hd] at h
            split at h
            case h_2 => cases h
            obtain rfl := Except.ok.inj h
            obtain ⟨members, rfl, rfl⟩ := obj_of_document? hd
            refine ⟨(Nat.succ_le_succ (depthMembers_le_iff.mpr fun m hm => ?_)).trans hdepth, ?_⟩
            · exact depthMembers_le_iff.mp (Nat.le_refl _) m (Table.mem_ofList hm)
            · exact rangedMembers_iff.mpr fun m hm =>
                rangedMembers_iff.mp hranged m (Table.mem_ofList hm)

end Json
end EdgeAgent
