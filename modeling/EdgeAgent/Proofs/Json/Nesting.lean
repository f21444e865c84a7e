import EdgeAgent.Proofs.Data.Table
import EdgeAgent.Proofs.Json.Numbers

/-! # What is read is nested as deep as the text

A term that holds a value is decoded exactly if the value is nested no deeper
than the room for it. Whatever is decoded from a text fits into the room, and its
whole numbers have sixty-four bits.
-/

namespace EdgeAgent

open Json

/-! ## Values -/

namespace Json

mutual
/-- The whole numbers in the value are ones that sixty-four bits hold. -/
def Ranged : Json → Prop
  | .int n => Reader.InRange n
  | .arr items => RangedItems items
  | .obj members => RangedMembers members
  | _ => True

def RangedItems : List Json → Prop
  | [] => True
  | v :: rest => Ranged v ∧ RangedItems rest

def RangedMembers : List (String × Json) → Prop
  | [] => True
  | (_, v) :: rest => Ranged v ∧ RangedMembers rest
end

mutual
instance Ranged.decide : (v : Json) → Decidable v.Ranged
  | .int n => inferInstanceAs (Decidable (Reader.InRange n))
  | .arr items => RangedItems.decide items
  | .obj members => RangedMembers.decide members
  | .null | .bool _ | .double _ | .str _ => .isTrue trivial

def RangedItems.decide : (vs : List Json) → Decidable (RangedItems vs)
  | [] => .isTrue trivial
  | v :: rest => @instDecidableAnd _ _ (Ranged.decide v) (RangedItems.decide rest)

def RangedMembers.decide : (ms : List (String × Json)) → Decidable (RangedMembers ms)
  | [] => .isTrue trivial
  | (_, v) :: rest => @instDecidableAnd _ _ (Ranged.decide v) (RangedMembers.decide rest)
end

theorem rangedMembers_iff {ms : List (String × Json)} :
    RangedMembers ms ↔ ∀ m ∈ ms, Ranged m.2 := by
  induction ms with
  | nil => simp [RangedMembers]
  | cons m ms ih => simp [RangedMembers, ih]

theorem depthMembers_le_iff {ms : List (String × Json)} {n : Nat} :
    depthMembers ms ≤ n ↔ ∀ m ∈ ms, depth m.2 ≤ n := by
  induction ms with
  | nil => simp [depthMembers]
  | cons m ms ih => simp [depthMembers, ih]

end Json

namespace Table

theorem mem_insertAll {α : Type} {pairs : List (String × α)} {t : Table α} {r : String × α}
    (h : r ∈ (t.insertAll pairs).rows) : r ∈ pairs ∨ r ∈ t.rows := by
  induction pairs generalizing t with
  | nil => exact .inr h
  | cons p pairs ih =>
      have hstep : t.insertAll (p :: pairs) = (t.insert p.1 p.2).insertAll pairs := rfl
      rw [hstep] at h
      rcases ih h with hlater | hnow
      · exact .inl (List.mem_cons_of_mem _ hlater)
      · rcases mem_putRows hnow with rfl | hbefore
        · exact .inl List.mem_cons_self
        · exact .inr hbefore

theorem mem_ofList {α : Type} {pairs : List (String × α)} {r : String × α}
    (h : r ∈ (ofList pairs).rows) : r ∈ pairs :=
  (mem_insertAll h).resolve_right (by simp [empty])

end Table

/-! ## Terms of values -/

@[simp] theorem isOk_ok {ε α : Type} (a : α) : (Except.ok a : Except ε α).isOk = true := rfl

@[simp] theorem isOk_error {ε α : Type} (e : ε) : (Except.error e : Except ε α).isOk = false := rfl

theorem isOk_bind {ε α β : Type} (x : Except ε α) (f : α → Except ε β) :
    (x >>= f).isOk = true ↔ ∃ a, x = .ok a ∧ (f a).isOk = true := by
  cases x with
  | error e => simp [bind, Except.bind]
  | ok a => simp [bind, Except.bind]

theorem isOk_iff {ε α : Type} {x : Except ε α} : x.isOk = true ↔ ∃ a, x = .ok a := by
  cases x with
  | error e => simp
  | ok a => simp

namespace Term

mutual
theorem isOk_json {w : Json} {t : Term} (h : Reads w t) (room : Nat) :
    (t.json room).isOk = true ↔ w.depth ≤ room := by
  cases w with
  | null =>
      obtain rfl := h
      simp [Term.json, depth]
  | bool b =>
      obtain rfl := h
      cases b <;> simp [Term.json, depth]
  | int n =>
      obtain rfl := h
      simp [Term.json, depth]
  | double x =>
      obtain rfl := h
      simp [Term.json, depth]
  | str s =>
      obtain rfl := h
      simp [Term.json, depth, Except.isOk, Except.toBool, Except.map]
  | arr items =>
      obtain ⟨whole, ts, rfl, hts⟩ := h
      cases room with
      | zero => simp [Term.json, depth]
      | succ room =>
          have hitems := isOk_jsonItems hts room
          rw [isOk_iff] at hitems
          simp only [Term.json, depth, isOk_bind, closed, Nat.add_le_add_iff_right, ← hitems]
          simp
  | obj members =>
      obtain ⟨whole, ms, rfl, hms⟩ := h
      cases room with
      | zero => simp [Term.json, depth]
      | succ room =>
          have hmembers := isOk_jsonMembers hms room
          rw [isOk_iff] at hmembers
          simp only [Term.json, depth, isOk_bind, closed, Nat.add_le_add_iff_right, ← hmembers]
          simp

theorem isOk_jsonItems {ws : List Json} {ts : List Term} (h : ReadsItems ws ts) (room : Nat) :
    (jsonItems room ts).isOk = true ↔ depthItems ws ≤ room := by
  cases ws with
  | nil =>
      obtain rfl := h
      simp [jsonItems, depthItems]
  | cons w ws =>
      obtain ⟨u, us, rfl, hu, hus⟩ := h
      have hfirst := isOk_json hu room
      have hrest := isOk_jsonItems hus room
      rw [isOk_iff] at hfirst hrest
      simp only [jsonItems, depthItems, isOk_bind, Nat.max_le, ← hfirst, ← hrest]
      simp [pure, Except.pure]

theorem isOk_jsonMembers {ws : List (String × Json)} {ms : List (Token String × Term)}
    (h : ReadsMembers ws ms) (room : Nat) :
    (jsonMembers room ms).isOk = true ↔ depthMembers ws ≤ room := by
  cases ws with
  | nil =>
      obtain rfl := h
      simp [jsonMembers, depthMembers]
  | cons w ws =>
      obtain ⟨n, w⟩ := w
      obtain ⟨u, us, rfl, hu, hus⟩ := h
      have hfirst := isOk_json hu room
      have hrest := isOk_jsonMembers hus room
      rw [isOk_iff] at hfirst hrest
      simp only [jsonMembers, depthMembers, isOk_bind, Nat.max_le, ← hfirst, ← hrest]
      simp [pure, Except.pure]
end

mutual
/-- A value that is nested too deep is refused for that, and for nothing else. -/
theorem json_tooDeep {w : Json} {t : Term} (h : Reads w t) {room : Nat} (hdeep : room < w.depth) :
    ∃ place, t.json room = .error ⟨.tooDeep, place⟩ := by
  cases w with
  | arr items =>
      obtain ⟨whole, ts, rfl, hts⟩ := h
      cases room with
      | zero => exact ⟨_, rfl⟩
      | succ room =>
          obtain ⟨place, hplace⟩ := jsonItems_tooDeep hts (Nat.lt_of_succ_lt_succ hdeep)
          refine ⟨place, ?_⟩
          simp only [Term.json, hplace]
          rfl
  | obj members =>
      obtain ⟨whole, ms, rfl, hms⟩ := h
      cases room with
      | zero => exact ⟨_, rfl⟩
      | succ room =>
          obtain ⟨place, hplace⟩ := jsonMembers_tooDeep hms (Nat.lt_of_succ_lt_succ hdeep)
          refine ⟨place, ?_⟩
          simp only [Term.json, hplace]
          rfl
  | _ => exact absurd hdeep (Nat.not_lt_zero room)

theorem jsonItems_tooDeep {ws : List Json} {ts : List Term} (h : ReadsItems ws ts) {room : Nat}
    (hdeep : room < depthItems ws) : ∃ place, jsonItems room ts = .error ⟨.tooDeep, place⟩ := by
  cases ws with
  | nil => exact absurd hdeep (Nat.not_lt_zero room)
  | cons w ws =>
      obtain ⟨u, us, rfl, hu, hus⟩ := h
      by_cases hfirst : w.depth ≤ room
      · obtain ⟨v, hv⟩ := isOk_iff.mp ((isOk_json hu room).mpr hfirst)
        have hlater : room < depthItems ws := by
          rw [depthItems] at hdeep
          omega
        obtain ⟨place, hplace⟩ := jsonItems_tooDeep hus hlater
        refine ⟨place, ?_⟩
        simp only [jsonItems, hv, hplace]
        rfl
      · obtain ⟨place, hplace⟩ := json_tooDeep hu (Nat.lt_of_not_le hfirst)
        refine ⟨place, ?_⟩
        simp only [jsonItems, hplace]
        rfl

theorem jsonMembers_tooDeep {ws : List (String × Json)} {ms : List (Token String × Term)}
    (h : ReadsMembers ws ms) {room : Nat} (hdeep : room < depthMembers ws) :
    ∃ place, jsonMembers room ms = .error ⟨.tooDeep, place⟩ := by
  cases ws with
  | nil => exact absurd hdeep (Nat.not_lt_zero room)
  | cons w ws =>
      obtain ⟨n, w⟩ := w
      obtain ⟨u, us, rfl, hu, hus⟩ := h
      by_cases hfirst : w.depth ≤ room
      · obtain ⟨v, hv⟩ := isOk_iff.mp ((isOk_json hu room).mpr hfirst)
        have hlater : room < depthMembers ws := by
          rw [depthMembers] at hdeep
          omega
        obtain ⟨place, hplace⟩ := jsonMembers_tooDeep hus hlater
        refine ⟨place, ?_⟩
        simp only [jsonMembers, hv, hplace]
        rfl
      · obtain ⟨place, hplace⟩ := json_tooDeep hu (Nat.lt_of_not_le hfirst)
        refine ⟨place, ?_⟩
        simp only [jsonMembers, hplace]
        rfl
end

/-! ## Any term -/

mutual
/-- The numbers in the term are numbers, and the whole ones have sixty-four bits. -/
def Numeric : Term → Prop
  | .number t => ∀ v, t.value = .ok v → v.depth = 0 ∧ v.Ranged
  | .array _ ts _ => NumericItems ts
  | .object _ ms _ _ => NumericMembers ms
  | _ => True

def NumericItems : List Term → Prop
  | [] => True
  | t :: rest => Numeric t ∧ NumericItems rest

def NumericMembers : List (Token String × Term) → Prop
  | [] => True
  | (_, t) :: rest => Numeric t ∧ NumericMembers rest
end

mutual
theorem fits_json {t : Term} (h : t.Numeric) {room : Nat} {v : Json} (hv : t.json room = .ok v) :
    v.depth ≤ room ∧ v.Ranged := by
  cases t with
  | broken f => cases hv
  | word w f =>
      cases f with
      | some f => cases hv
      | none =>
          cases w <;> cases hv <;> exact ⟨Nat.zero_le _, trivial⟩
  | number token =>
      obtain ⟨hdepth, hranged⟩ := h v hv
      exact ⟨by omega, hranged⟩
  | text token =>
      simp only [Term.json] at hv
      cases hvalue : token.value with
      | error f =>
          rw [hvalue] at hv
          cases hv
      | ok s =>
          rw [hvalue] at hv
          cases hv
          exact ⟨Nat.zero_le _, trivial⟩
  | array whole ts f =>
      cases room with
      | zero => cases hv
      | succ room =>
          simp only [Term.json] at hv
          cases hitems : jsonItems room ts with
          | error f =>
              rw [hitems] at hv
              cases hv
          | ok values =>
              rw [hitems] at hv
              obtain ⟨hdepth, hranged⟩ := fits_jsonItems h hitems
              cases f with
              | some f => cases hv
              | none =>
                  cases hv
                  exact ⟨Nat.succ_le_succ hdepth, hranged⟩
  | object whole ms f other =>
      cases room with
      | zero => cases hv
      | succ room =>
          simp only [Term.json] at hv
          cases hmembers : jsonMembers room ms with
          | error f =>
              rw [hmembers] at hv
              cases hv
          | ok pairs =>
              rw [hmembers] at hv
              have hpairs := fits_jsonMembers h hmembers
              cases f with
              | some f => cases hv
              | none =>
                  cases hv
                  refine ⟨Nat.succ_le_succ (depthMembers_le_iff.mpr fun m hm => ?_),
                    rangedMembers_iff.mpr fun m hm => ?_⟩
                  · exact (hpairs m (Table.mem_ofList hm)).1
                  · exact (hpairs m (Table.mem_ofList hm)).2

theorem fits_jsonItems {ts : List Term} (h : NumericItems ts) {room : Nat} {vs : List Json}
    (hvs : jsonItems room ts = .ok vs) : depthItems vs ≤ room ∧ RangedItems vs := by
  cases ts with
  | nil =>
      cases hvs
      exact ⟨Nat.zero_le _, trivial⟩
  | cons t ts =>
      simp only [jsonItems] at hvs
      cases hfirst : t.json room with
      | error f =>
          rw [hfirst] at hvs
          cases hvs
      | ok v =>
          cases hrest : jsonItems room ts with
          | error f =>
              rw [hfirst, hrest] at hvs
              cases hvs
          | ok rest =>
              rw [hfirst, hrest] at hvs
              cases hvs
              obtain ⟨hdepth, hranged⟩ := fits_json h.1 hfirst
              obtain ⟨hdepths, hrangeds⟩ := fits_jsonItems h.2 hrest
              exact ⟨Nat.max_le.mpr ⟨hdepth, hdepths⟩, hranged, hrangeds⟩

theorem fits_jsonMembers {ms : List (Token String × Term)} (h : NumericMembers ms) {room : Nat}
    {pairs : List (String × Json)} (hpairs : jsonMembers room ms = .ok pairs) :
    ∀ m ∈ pairs, depth m.2 ≤ room ∧ Ranged m.2 := by
  cases ms with
  | nil =>
      cases hpairs
      exact nofun
  | cons m ms =>
      obtain ⟨name, t⟩ := m
      simp only [jsonMembers] at hpairs
      cases hname : name.value with
      | error f =>
          rw [hname] at hpairs
          cases hpairs
      | ok n =>
          cases hfirst : t.json room with
          | error f =>
              rw [hname, hfirst] at hpairs
              cases hpairs
          | ok v =>
              cases hrest : jsonMembers room ms with
              | error f =>
                  rw [hname, hfirst, hrest] at hpairs
                  cases hpairs
              | ok rest =>
                  rw [hname, hfirst, hrest] at hpairs
                  cases hpairs
                  intro m hm
                  rcases List.mem_cons.mp hm with rfl | hm
                  · exact fits_json h.1 hfirst
                  · exact fits_jsonMembers h.2 hrest m hm
end

end Term

/-! ## The terms of a text -/

namespace Json.Reader

open EdgeAgent.Decimal (digit? maxWord)

theorem numericItems_iff {ts : List Term} : Term.NumericItems ts ↔ ∀ t ∈ ts, t.Numeric := by
  induction ts with
  | nil => simp [Term.NumericItems]
  | cons t ts ih => simp [Term.NumericItems, ih]

theorem numericMembers_iff {ms : List (Token String × Term)} :
    Term.NumericMembers ms ↔ ∀ m ∈ ms, m.2.Numeric := by
  induction ms with
  | nil => simp [Term.NumericMembers]
  | cons m ms ih => simp [Term.NumericMembers, ih]

def Sound (l : Lexed Json) : Prop := ∀ v, l.token.value = .ok v → v.depth = 0 ∧ v.Ranged

theorem absorb_value_le {s : Significand} (h : s.value ≤ maxWord) (kept : Nat) (cs : List Char) :
    (absorb s kept cs).1.value ≤ maxWord := by
  induction cs generalizing s kept with
  | nil => exact h
  | cons c cs ih =>
      simp only [absorb]
      split
      · exact h
      · split
        · rename_i hroom
          exact ih hroom.2 _
        · exact ih (s := ⟨s.value, s.dropped + 1⟩) h _

theorem sound_finish (negative : Bool) (n : Nat) (e : Int) (rest : List Char) :
    Sound (finish negative n e rest) := by
  intro v hv
  unfold finish at hv
  split at hv
  · cases hv
    exact ⟨rfl, trivial⟩
  · cases hv

theorem sound_broken (defect : Defect) (place : Place) (rest : List Char) :
    Sound (broken defect place rest) := nofun

theorem sound_exponent (negative : Bool) (n : Nat) (start : Int) (cs : List Char) :
    Sound (exponent negative n start cs) := by
  unfold exponent
  split
  rename_i down digits _
  split
  · exact sound_broken _ _ _
  · split
    · exact sound_broken _ _ _
    · split
      · exact sound_finish negative n _ _
      · split
        · exact nofun
        · intro v hv
          cases hv
          exact ⟨rfl, trivial⟩

theorem sound_fraction (negative : Bool) (n : Nat) (start : Int) (cs : List Char) :
    Sound (fraction negative n start cs) := by
  unfold fraction
  split
  · exact sound_broken _ _ _
  · split
    · exact sound_broken _ _ _
    · simp only
      split
      · exact sound_exponent negative _ _ _
      · exact sound_exponent negative _ _ _
      · exact sound_finish negative _ _ _

theorem sound_whole (negative : Bool) {s : Significand} (h : s.value ≤ maxWord) (rest : List Char) :
    Sound (whole negative s rest) := by
  have hword : maxWord = 2 ^ 64 - 1 := rfl
  have hsign : twoTo 63 = 2 ^ 63 := rfl
  unfold whole
  split
  · exact sound_finish negative _ _ rest
  · split
    · intro v hv
      cases hv
      refine ⟨rfl, ?_⟩
      show InRange _
      unfold InRange
      omega
    · split
      · intro v hv
        cases hv
        exact ⟨rfl, trivial⟩
      · intro v hv
        cases hv
        refine ⟨rfl, ?_⟩
        show InRange _
        unfold InRange
        omega

theorem sound_number (negative : Bool) (cs : List Char) : Sound (number negative cs) := by
  unfold number
  split
  · exact sound_broken _ _ _
  · split
    · exact sound_broken _ _ _
    · split
      · exact sound_broken _ _ _
      · rename_i c more _ _
        have hsize := absorb_value_le (s := ⟨0, 0⟩) (Nat.zero_le maxWord) 0 (c :: more)
        generalize absorb ⟨0, 0⟩ 0 (c :: more) = absorbed at *
        obtain ⟨s, _, rest⟩ := absorbed
        simp only
        split
        · exact sound_fraction negative _ _ _
        · exact sound_exponent negative _ _ _
        · exact sound_exponent negative _ _ _
        · exact sound_whole negative hsize _

theorem numeric_parts (fuel : Nat) :
    (∀ cs, (value fuel cs).1.Numeric) ∧
      (∀ cs whole done, Term.NumericItems done → (Reader.items fuel cs whole done).1.Numeric) ∧
      ∀ cs whole done, Term.NumericMembers done →
        (Reader.members fuel cs whole done).1.Numeric := by
  have reverseItems {ts : List Term} (h : Term.NumericItems ts) : Term.NumericItems ts.reverse :=
    numericItems_iff.mpr fun t ht => numericItems_iff.mp h t (List.mem_reverse.mp ht)
  have reverseMembers {ms : List (Token String × Term)} (h : Term.NumericMembers ms) :
      Term.NumericMembers ms.reverse :=
    numericMembers_iff.mpr fun m hm => numericMembers_iff.mp h m (List.mem_reverse.mp hm)
  induction fuel with
  | zero => exact ⟨fun _ => trivial, fun _ _ _ h => reverseItems h, fun _ _ _ h => reverseMembers h⟩
  | succ fuel ih =>
      obtain ⟨hvalue, hitems, hmembers⟩ := ih
      refine ⟨fun cs => ?_, fun cs whole done hdone => ?_, fun cs whole done hdone => ?_⟩
      · unfold value
        split
        · trivial
        · split
          · trivial
          · trivial
          · trivial
          · exact sound_number true _
          · trivial
          · split
            · trivial
            · trivial
            · exact hitems _ _ [] trivial
          · split
            · trivial
            · trivial
            · exact hmembers _ _ [] trivial
          · split
            · exact sound_number false _
            · trivial
      · have hfirst := hvalue cs
        simp only [Reader.items]
        generalize value fuel cs = first at *
        obtain ⟨t, rest⟩ := first
        have hdone : Term.NumericItems (t :: done) := ⟨hfirst, hdone⟩
        simp only
        split
        · split
          · exact reverseItems hdone
          · exact hitems _ _ _ hdone
        · exact reverseItems hdone
        · exact reverseItems hdone
        · exact reverseItems hdone
      · unfold Reader.members
        split
        · exact reverseMembers hdone
        · simp only
          split
          · rename_i more _
            have hfirst := hvalue more
            generalize value fuel more = first at *
            obtain ⟨t, rest⟩ := first
            simp only
            have hdone (name : Token String) : Term.NumericMembers ((name, t) :: done) :=
              ⟨hfirst, hdone⟩
            split
            · exact hmembers _ _ _ (hdone _)
            · exact reverseMembers (hdone _)
            · exact reverseMembers (hdone _)
            · exact reverseMembers (hdone _)
          · exact reverseMembers ⟨trivial, hdone⟩
          · exact reverseMembers ⟨trivial, hdone⟩
        · exact reverseMembers hdone

theorem fits_read {cs : List Char} {room : Nat} {v : Json}
    (h : (Reader.read cs).1.json room = .ok v) : v.depth ≤ room ∧ v.Ranged :=
  Term.fits_json ((numeric_parts _).1 cs) h

end Json.Reader
end EdgeAgent
