import EdgeAgent.Json.Printer
import EdgeAgent.Json.Record
import Mathlib.Data.List.Forall2

/-! # Written values are read back

The text of a value, indented, leads the reader to a term without a fault that
holds the value, or one that the reader takes it for, and to what follows the
text. The proof goes along the value: texts read back by themselves, arrays and
objects as their parts do.
-/

namespace EdgeAgent.Json

open Printer Reader

/-! ## Texts -/

theorem hexDigit?_hexDigit : ∀ n < 16, hexDigit? (hexDigit n) = some n := by
  decide

theorem fourBytes_of_four (a b c d : Char) (cs : List Char) :
    fourBytes (a :: b :: c :: d :: cs) = true := by
  have ha := a.utf8Size_pos
  have hb := b.utf8Size_pos
  have hc := c.utf8Size_pos
  have hd := d.utf8Size_pos
  unfold fourBytes
  apply decide_eq_true
  simp only [Place.size, List.take_succ_cons, List.take_zero, List.foldl_cons, List.foldl_nil]
  omega

theorem chars_code {c : Char} (hc : c.toNat < 0x20) (cs out : List Char) :
    chars ('\\' :: 'u' :: '0' :: '0' :: hexDigit (c.toNat / 16) :: hexDigit (c.toNat % 16) :: cs)
      .plain none out none = chars cs .plain none (c :: out) none := by
  have hzero : hexDigit? '0' = some 0 := by decide
  have hhigh : hexDigit? (hexDigit (c.toNat / 16)) = some (c.toNat / 16) :=
    hexDigit?_hexDigit _ (by omega)
  have hlow : hexDigit? (hexDigit (c.toNat % 16)) = some (c.toNat % 16) :=
    hexDigit?_hexDigit _ (by omega)
  have hcode : ((0 * 16 + 0) * 16 + 0) * 16 + c.toNat / 16 = c.toNat / 16 := by omega
  have hvalue : c.toNat / 16 * 16 + c.toNat % 16 = c.toNat := Nat.div_add_mod' _ _
  have hnotHigh : isHigh c.toNat = false := by
    simp only [isHigh, Bool.and_eq_false_iff, decide_eq_false_iff_not]
    omega
  have hnotLow : isLow c.toNat = false := by
    simp only [isLow, Bool.and_eq_false_iff, decide_eq_false_iff_not]
    omega
  simp only [chars, fourBytes_of_four, hzero, hhigh, hlow, hcode, hvalue, hnotHigh, hnotLow]
  simp

theorem chars_escape (c : Char) (cs out : List Char) :
    chars (escape c ++ cs) .plain none out none = chars cs .plain none (c :: out) none := by
  unfold escape
  split
  · rfl
  · rfl
  · rfl
  · rfl
  · rfl
  · rfl
  · rfl
  · rename_i hquote hbackslash _ _ _ _ _
    split
    · rename_i hcontrol
      exact chars_code hcontrol cs out
    · rename_i hcontrol
      have hq : c ≠ '"' := hquote
      have hb : c ≠ '\\' := hbackslash
      simp [chars, hq, hb, hcontrol]

theorem chars_flatMap_escape (s rest out : List Char) :
    chars (s.flatMap escape ++ '"' :: rest) .plain none out none =
      ⟨⟨.ok (String.ofList (out.reverse ++ s)), none⟩, rest⟩ := by
  induction s generalizing out with
  | nil => simp [chars]
  | cons c s ih =>
      rw [List.flatMap_cons, List.append_assoc, chars_escape, ih]
      simp

theorem text_text (s : String) (rest : List Char) :
    Reader.text (s.toList.flatMap escape ++ '"' :: rest) = ⟨⟨.ok s, none⟩, rest⟩ := by
  simp [Reader.text, chars_flatMap_escape]

/-! ## Blanks -/

@[simp] theorem skipSpace_cons_blank (cs : List Char) : skipSpace (' ' :: cs) = skipSpace cs := by
  rfl

theorem skipSpace_cons (c : Char) (hc : isSpace c = false) (cs : List Char) :
    skipSpace (c :: cs) = c :: cs := by
  simp [skipSpace, hc]

@[simp] theorem skipSpace_newline (level : Nat) (cs : List Char) :
    skipSpace (newline level ++ cs) = skipSpace cs := by
  have hblanks : ∀ n, skipSpace (List.replicate n ' ' ++ cs) = skipSpace cs := by
    intro n
    induction n with
    | zero => rfl
    | succ n ih => rw [List.replicate_succ, List.cons_append, skipSpace_cons_blank, ih]
  exact hblanks (2 * level)

theorem value_skip (fuel : Nat) {cs ds : List Char} (h : skipSpace cs = skipSpace ds) :
    value (fuel + 1) cs = value (fuel + 1) ds := by
  simp only [value, h]

theorem members_skip (fuel : Nat) {cs ds : List Char} (h : skipSpace cs = skipSpace ds)
    (whole : List Char) (done : List (Token String × Term)) :
    Reader.members (fuel + 1) cs whole done = Reader.members (fuel + 1) ds whole done := by
  simp only [Reader.members, h]

/-! ## Terms of values -/

mutual
/-- The term holds the value and has no fault. -/
def Reads : Json → Term → Prop
  | .null, t => t = .word .null none
  | .bool b, t => t = .word (if b then .yes else .no) none
  | .int n, t => t = .number ⟨.ok (.int n), none⟩
  | .double x, t => t = .number ⟨.ok (.double x), none⟩
  | .str s, t => t = .text ⟨.ok s, none⟩
  | .arr items, t => ∃ whole ts, t = .array whole ts none ∧ ReadsItems items ts
  | .obj members, t => ∃ whole ms, t = .object whole ms none none ∧ ReadsMembers members ms

def ReadsItems : List Json → List Term → Prop
  | [], ts => ts = []
  | v :: rest, ts => ∃ u us, ts = u :: us ∧ Reads v u ∧ ReadsItems rest us

def ReadsMembers : List (String × Json) → List (Token String × Term) → Prop
  | [], ms => ms = []
  | (n, v) :: rest, ms => ∃ u us, ms = (⟨.ok n, none⟩, u) :: us ∧ Reads v u ∧ ReadsMembers rest us
end

/-- What can follow a value inside a written text. -/
def Follows (cs : List Char) : Prop :=
  cs = [] ∨ cs.head? = some ',' ∨ cs.head? = some '\n'

/-- The text of a value is read as far as it goes, with any fuel that is enough for
its characters. -/
structure ReadsBack (v : Json) : Prop where
  begins : ∀ level, ∃ c cs, pretty level v = c :: cs ∧ isSpace c = false ∧ c ≠ ']'
  reads : ∀ level fuel rest, Follows rest → (pretty level v).length ≤ fuel →
    ∃ t, value fuel (pretty level v ++ rest) = (t, rest) ∧ Reads v t

/-- The text of a value is read as far as it goes, for a value that may be another one. -/
structure ReadsAs (v w : Json) : Prop where
  begins : ∀ level, ∃ c cs, pretty level v = c :: cs ∧ isSpace c = false ∧ c ≠ ']'
  reads : ∀ level fuel rest, Follows rest → (pretty level v).length ≤ fuel →
    ∃ t, value fuel (pretty level v ++ rest) = (t, rest) ∧ Reads w t

theorem ReadsBack.readsAs {v : Json} (h : ReadsBack v) : ReadsAs v v := ⟨h.begins, h.reads⟩

theorem ReadsAs.readsBack {v : Json} (h : ReadsAs v v) : ReadsBack v := ⟨h.begins, h.reads⟩

theorem readsBack_str (s : String) : ReadsBack (.str s) := by
  refine ⟨fun level => ⟨'"', _, rfl, by decide, by decide⟩, ?_⟩
  intro level fuel rest _ hfuel
  cases fuel with
  | zero => simp [pretty, scalar, Printer.text] at hfuel
  | succ fuel =>
      refine ⟨.text ⟨.ok s, none⟩, ?_, rfl⟩
      have hskip := skipSpace_cons '"' rfl (s.toList.flatMap escape ++ '"' :: rest)
      simp [value, pretty, scalar, Printer.text, hskip, leaf, text_text]

/-! ## Arrays -/

theorem items_last {fuel level : Nat} {cs rest whole : List Char} {t : Term} {done : List Term}
    (h : value fuel cs = (t, newline level ++ ']' :: rest)) :
    Reader.items (fuel + 1) cs whole done = (.array whole (t :: done).reverse none, rest) := by
  have hskip := skipSpace_cons ']' rfl rest
  simp [Reader.items, h, hskip]

theorem items_next {fuel level : Nat} {c : Char} {cs more : List Char} {t : Term}
    (whole : List Char) (done : List Term) (hc : isSpace c = false) (hclose : c ≠ ']')
    (h : value fuel cs = (t, ',' :: (newline level ++ c :: more))) :
    Reader.items (fuel + 1) cs whole done = Reader.items fuel (c :: more) whole (t :: done) := by
  have hcomma := skipSpace_cons ',' rfl (newline level ++ c :: more)
  have hskip := skipSpace_cons c hc more
  simp [Reader.items, h, hcomma, hskip, hclose]

theorem value_array {fuel : Nat} {c : Char} {cs more : List Char} (hclose : c ≠ ']')
    (h : skipSpace cs = c :: more) :
    value (fuel + 1) ('[' :: cs) = Reader.items fuel (c :: more) ('[' :: cs) [] := by
  have hskip := skipSpace_cons '[' rfl cs
  simp [value, hskip, h, hclose]

theorem begins_items {v w : Json} (hv : ReadsAs v w) (level : Nat) (vs : List Json)
    (sep : List Char) :
    ∃ c cs, separate sep (prettyItems level (v :: vs)) = c :: cs ∧ isSpace c = false ∧ c ≠ ']' := by
  obtain ⟨c, cs, hv, hblank, hclose⟩ := hv.begins level
  cases vs with
  | nil => exact ⟨c, cs, hv, hblank, hclose⟩
  | cons w vs =>
      refine ⟨c, cs ++ sep ++ separate sep (prettyItems level (w :: vs)), ?_, hblank, hclose⟩
      simp [prettyItems, separate, hv]

theorem items_pretty {vs ws : List Json} (hvs : List.Forall₂ ReadsAs vs ws) (hne : vs ≠ [])
    (level outer fuel : Nat) (rest whole : List Char) (done : List Term)
    (hfuel : (separate (',' :: newline level) (prettyItems level vs)).length < fuel) :
    ∃ ts, Reader.items fuel (separate (',' :: newline level) (prettyItems level vs) ++
        (newline outer ++ ']' :: rest)) whole done =
          (.array whole (done.reverse ++ ts) none, rest) ∧
      ReadsItems ws ts := by
  -- Every item takes one of the fuel, and at least one character of the text.
  induction hvs generalizing fuel done with
  | nil => exact (hne rfl).elim
  | @cons v _ vs _ hv hvs ih =>
      obtain ⟨fuel, rfl⟩ : ∃ n, fuel = n + 1 := ⟨fuel - 1, by omega⟩
      cases hvs with
      | nil =>
          simp only [prettyItems, separate] at hfuel ⊢
          obtain ⟨t, hvalue, ht⟩ := hv.reads level fuel (newline outer ++ ']' :: rest)
            (.inr (.inr rfl)) (by omega)
          refine ⟨[t], ?_, t, [], rfl, ht, rfl⟩
          rw [items_last hvalue]
          simp
      | @cons w _ vs _ hw hvs =>
          obtain ⟨c, more, hnext, hblank, hclose⟩ :=
            begins_items hw level vs (',' :: newline level)
          have hsplit : separate (',' :: newline level) (prettyItems level (v :: w :: vs)) =
              pretty level v ++ (',' :: newline level) ++
                separate (',' :: newline level) (prettyItems level (w :: vs)) := rfl
          rw [hsplit] at hfuel ⊢
          simp only [List.length_append, List.length_cons] at hfuel
          obtain ⟨t, hvalue, ht⟩ := hv.reads level fuel
            (',' :: (newline level ++ c :: (more ++ (newline outer ++ ']' :: rest))))
            (.inr (.inl rfl)) (by omega)
          obtain ⟨ts, hitems, hts⟩ :=
            ih (by simp) fuel (t :: done) (by omega)
          refine ⟨t :: ts, ?_, t, ts, rfl, ht, hts⟩
          have hstep := items_next whole done hblank hclose hvalue
          rw [hnext] at hitems ⊢
          simp only [List.append_assoc, List.cons_append, List.reverse_cons, List.nil_append]
            at hstep hitems ⊢
          rw [hstep, hitems]

theorem readsAs_arr {vs ws : List Json} (hvs : List.Forall₂ ReadsAs vs ws) :
    ReadsAs (.arr vs) (.arr ws) := by
  cases hvs with
  | nil =>
      refine ⟨fun level => ⟨'[', [']'], rfl, by decide, by decide⟩, ?_⟩
      intro level fuel rest _ hfuel
      obtain ⟨fuel, rfl⟩ : ∃ n, fuel = n + 1 := ⟨fuel - 1, by simp [pretty] at hfuel; omega⟩
      have hopen := skipSpace_cons '[' rfl (']' :: rest)
      have hclose := skipSpace_cons ']' rfl rest
      exact ⟨.array ('[' :: ']' :: rest) [] none, by simp [pretty, value, hopen, hclose],
        _, [], rfl, rfl⟩
  | @cons v _ vs _ hv hvs =>
      refine ⟨fun level => ⟨'[', _, rfl, by decide, by decide⟩, ?_⟩
      intro level fuel rest _ hfuel
      simp only [pretty, List.length_append, List.length_cons, List.length_nil] at hfuel ⊢
      obtain ⟨fuel, rfl⟩ : ∃ n, fuel = n + 1 := ⟨fuel - 1, by omega⟩
      obtain ⟨c, more, hbody, hblank, hclose⟩ :=
        begins_items hv (level + 1) vs (',' :: newline (level + 1))
      obtain ⟨ts, hitems, hts⟩ := items_pretty (.cons hv hvs) (by simp) (level + 1) level
        fuel rest
        ('[' :: (newline (level + 1) ++ (c :: more ++ (newline level ++ ']' :: rest)))) []
        (by omega)
      have hopen : skipSpace
          (newline (level + 1) ++ (c :: more ++ (newline level ++ ']' :: rest))) =
            c :: (more ++ (newline level ++ ']' :: rest)) := by
        rw [skipSpace_newline, List.cons_append, skipSpace_cons c hblank]
      rw [hbody] at hitems ⊢
      have hread := (value_array hclose hopen).trans hitems
      simp only [List.append_assoc, List.cons_append, List.nil_append] at hread ⊢
      exact ⟨_, hread, _, ts, rfl, hts⟩

theorem readsBack_arr {vs : List Json} (hvs : ∀ v ∈ vs, ReadsBack v) : ReadsBack (.arr vs) :=
  (readsAs_arr (List.forall₂_same.mpr fun v hv => (hvs v hv).readsAs)).readsBack

/-! ## Objects -/

theorem members_last {fuel level : Nat} {cs rest : List Char} {t : Term} (n : String)
    (whole : List Char) (done : List (Token String × Term))
    (h : value fuel cs = (t, newline level ++ '\x7d' :: rest)) :
    Reader.members (fuel + 1) (Printer.text n ++ ':' :: cs) whole done =
      (.object whole ((⟨.ok n, none⟩, t) :: done).reverse none none, rest) := by
  have hquote := skipSpace_cons '"' rfl (n.toList.flatMap escape ++ '"' :: ':' :: cs)
  have hcolon := skipSpace_cons ':' rfl cs
  have hclose := skipSpace_cons '\x7d' rfl rest
  simp [Reader.members, Printer.text, hquote, text_text, hcolon, h, hclose]

theorem members_next {fuel : Nat} {cs more : List Char} {t : Term} (n : String)
    (whole : List Char) (done : List (Token String × Term)) (h : value fuel cs = (t, ',' :: more)) :
    Reader.members (fuel + 1) (Printer.text n ++ ':' :: cs) whole done =
      Reader.members fuel more whole ((⟨.ok n, none⟩, t) :: done) := by
  have hquote := skipSpace_cons '"' rfl (n.toList.flatMap escape ++ '"' :: ':' :: cs)
  have hcolon := skipSpace_cons ':' rfl cs
  have hcomma := skipSpace_cons ',' rfl more
  simp [Reader.members, Printer.text, hquote, text_text, hcolon, h, hcomma]

theorem value_object {fuel : Nat} {cs more : List Char} (h : skipSpace cs = '"' :: more) :
    value (fuel + 1) ('\x7b' :: cs) = Reader.members fuel ('"' :: more) ('\x7b' :: cs) [] := by
  have hskip := skipSpace_cons '\x7b' rfl cs
  simp [value, hskip, h]

theorem begins_members (m : String × Json) (level : Nat) (ms : List (String × Json))
    (sep : List Char) : ∃ cs, separate sep (prettyMembers level (m :: ms)) = '"' :: cs := by
  cases ms with
  | nil => exact ⟨_, rfl⟩
  | cons k ms => exact ⟨_, rfl⟩

abbrev MembersReadAs : List (String × Json) → List (String × Json) → Prop :=
  List.Forall₂ fun m k => m.1 = k.1 ∧ ReadsAs m.2 k.2

theorem members_pretty {ms ks : List (String × Json)} (hms : MembersReadAs ms ks) (hne : ms ≠ [])
    (level outer fuel : Nat) (rest whole : List Char) (done : List (Token String × Term))
    (hfuel : (separate (',' :: newline level) (prettyMembers level ms)).length < fuel) :
    ∃ us, Reader.members fuel (separate (',' :: newline level) (prettyMembers level ms) ++
        (newline outer ++ '\x7d' :: rest)) whole done =
          (.object whole (done.reverse ++ us) none none, rest) ∧
      ReadsMembers ks us := by
  induction hms generalizing fuel done with
  | nil => exact (hne rfl).elim
  | @cons m k ms _ hm hms ih =>
      obtain ⟨n, v⟩ := m
      obtain ⟨_, w⟩ := k
      obtain ⟨rfl, hv⟩ : n = _ ∧ ReadsAs v w := hm
      -- The blank behind the colon is skipped by the reader of the value.
      have hvalue (fuel : Nat) (rest : List Char) (hrest : Follows rest)
          (hfuel : (pretty level v).length < fuel) :
          ∃ t, value fuel (' ' :: (pretty level v ++ rest)) = (t, rest) ∧ Reads w t := by
        obtain ⟨fuel, rfl⟩ : ∃ n, fuel = n + 1 := ⟨fuel - 1, by omega⟩
        rw [value_skip fuel (skipSpace_cons_blank _)]
        exact hv.reads level (fuel + 1) rest hrest (by omega)
      obtain ⟨fuel, rfl⟩ : ∃ n, fuel = n + 1 := ⟨fuel - 1, by omega⟩
      cases hms with
      | nil =>
          simp only [prettyMembers, separate, List.length_append, List.length_cons] at hfuel ⊢
          obtain ⟨t, hread, ht⟩ := hvalue fuel (newline outer ++ '\x7d' :: rest)
            (.inr (.inr rfl)) (by omega)
          refine ⟨[(⟨.ok n, none⟩, t)], ?_, t, [], rfl, ht, rfl⟩
          have hstep := members_last n whole done hread
          simp only [List.append_assoc, List.cons_append, List.reverse_cons] at hstep ⊢
          exact hstep
      | @cons k _ ms _ hk hms =>
          have hsplit : separate (',' :: newline level) (prettyMembers level ((n, v) :: k :: ms)) =
              Printer.text n ++ ':' :: ' ' :: pretty level v ++ (',' :: newline level) ++
                separate (',' :: newline level) (prettyMembers level (k :: ms)) := rfl
          rw [hsplit] at hfuel ⊢
          simp only [List.length_append, List.length_cons] at hfuel
          obtain ⟨fuel, rfl⟩ : ∃ n, fuel = n + 1 := ⟨fuel - 1, by omega⟩
          obtain ⟨t, hread, ht⟩ := hvalue (fuel + 1)
            (',' :: (newline level ++ (separate (',' :: newline level)
              (prettyMembers level (k :: ms)) ++ (newline outer ++ '\x7d' :: rest))))
            (.inr (.inl rfl)) (by omega)
          obtain ⟨us, hmembers, hus⟩ :=
            ih (by simp) (fuel + 1)
              ((⟨.ok n, none⟩, t) :: done) (by omega)
          refine ⟨(⟨.ok n, none⟩, t) :: us, ?_, t, us, rfl, ht, hus⟩
          have hstep := members_next n whole done hread
          rw [members_skip fuel (skipSpace_newline _ _), hmembers] at hstep
          simp only [List.append_assoc, List.cons_append, List.nil_append, List.reverse_cons]
            at hstep ⊢
          exact hstep

theorem readsAs_obj {ms ks : List (String × Json)} (hms : MembersReadAs ms ks) :
    ReadsAs (.obj ms) (.obj ks) := by
  cases hms with
  | nil =>
      refine ⟨fun level => ⟨'\x7b', ['\x7d'], rfl, by decide, by decide⟩, ?_⟩
      intro level fuel rest _ hfuel
      obtain ⟨fuel, rfl⟩ : ∃ n, fuel = n + 1 := ⟨fuel - 1, by simp [pretty] at hfuel; omega⟩
      have hopen := skipSpace_cons '\x7b' rfl ('\x7d' :: rest)
      have hclose := skipSpace_cons '\x7d' rfl rest
      exact ⟨.object ('\x7b' :: '\x7d' :: rest) [] none none,
        by simp [pretty, value, hopen, hclose], _, [], rfl, rfl⟩
  | @cons m _ ms _ hm hms =>
      refine ⟨fun level => ⟨'\x7b', _, rfl, by decide, by decide⟩, ?_⟩
      intro level fuel rest _ hfuel
      simp only [pretty, List.length_append, List.length_cons, List.length_nil] at hfuel ⊢
      obtain ⟨fuel, rfl⟩ : ∃ n, fuel = n + 1 := ⟨fuel - 1, by omega⟩
      obtain ⟨more, hbody⟩ := begins_members m (level + 1) ms (',' :: newline (level + 1))
      obtain ⟨us, hmembers, hus⟩ := members_pretty (.cons hm hms) (by simp) (level + 1)
        level fuel rest
        ('\x7b' :: (newline (level + 1) ++ ('"' :: more ++ (newline level ++ '\x7d' :: rest)))) []
        (by omega)
      have hopen : skipSpace
          (newline (level + 1) ++ ('"' :: more ++ (newline level ++ '\x7d' :: rest))) =
            '"' :: (more ++ (newline level ++ '\x7d' :: rest)) := by
        rw [skipSpace_newline, List.cons_append, skipSpace_cons '"' rfl]
      rw [hbody] at hmembers ⊢
      have hread := (value_object hopen).trans hmembers
      simp only [List.append_assoc, List.cons_append, List.nil_append] at hread ⊢
      exact ⟨_, hread, _, us, rfl, hus⟩

theorem readsBack_obj {ms : List (String × Json)} (hms : ∀ m ∈ ms, ReadsBack m.2) :
    ReadsBack (.obj ms) :=
  (readsAs_obj (List.forall₂_same.mpr fun m hm => ⟨rfl, (hms m hm).readsAs⟩)).readsBack

/-- A written text leads to a term of the value it is read as, and to its end. -/
theorem read_prettyText {v w : Json} (hv : ReadsAs v w) :
    ∃ t, Reader.read v.prettyText.toList = (t, []) ∧ Reads w t := by
  unfold prettyText Reader.read
  rw [String.toList_ofList]
  obtain ⟨t, hread, ht⟩ := hv.reads 0 ((pretty 0 v).length + 1) [] (.inl rfl) (by omega)
  rw [List.append_nil] at hread
  exact ⟨t, hread, ht⟩

end EdgeAgent.Json
