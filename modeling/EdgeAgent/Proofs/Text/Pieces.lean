import EdgeAgent.Text.Blank

/-! # Pieces of a text

A text is split at every separator: with separators between them the pieces are the text
again, and no other pieces are. Trimming takes the blanks off both ends of a text, and
there is only one text that is left.
-/

namespace EdgeAgent.Text

/-! ## Splitting -/

/-- The text is these pieces with separators between them. -/
structure SplitsInto (sep : Char) (cs : List Char) (pieces : List (List Char)) : Prop where
  joined : [sep].intercalate pieces = cs
  whole : ∀ p ∈ pieces, sep ∉ p
  /-- A text without a separator is one piece, also if it is empty. -/
  present : pieces ≠ []

theorem splitChars_eq_splitOnP (sep : Char → Bool) (cs : List Char) :
    splitChars sep cs = cs.splitOnP sep := by
  induction cs with
  | nil => rfl
  | cons c rest ih =>
      rw [List.splitOnP_cons_eq_if_modifyHead, splitChars, ih]
      cases hpieces : rest.splitOnP sep with
      | nil => exact absurd hpieces (List.splitOnP_ne_nil sep rest)
      | cons piece more => rfl

theorem splitChars_ne_nil (sep : Char → Bool) (cs : List Char) : splitChars sep cs ≠ [] := by
  rw [splitChars_eq_splitOnP]
  exact List.splitOnP_ne_nil sep cs

theorem of_mem_splitChars {sep : Char → Bool} {cs piece : List Char}
    (h : piece ∈ splitChars sep cs) {c : Char} (hc : c ∈ piece) : c ∈ cs ∧ sep c = false := by
  induction cs generalizing piece with
  | nil =>
      obtain rfl := List.mem_singleton.mp h
      cases hc
  | cons d rest ih =>
      rw [splitChars] at h
      cases hpieces : splitChars sep rest with
      | nil => exact absurd hpieces (splitChars_ne_nil sep rest)
      | cons first more =>
          have hlater (p : List Char) (hp : p ∈ first :: more) (hcp : c ∈ p) :
              c ∈ d :: rest ∧ sep c = false := by
            obtain ⟨hmem, hsep⟩ := ih (hpieces ▸ hp) hcp
            exact ⟨List.mem_cons_of_mem d hmem, hsep⟩
          simp only [hpieces] at h
          split at h
          · rcases List.mem_cons.mp h with rfl | hp
            · cases hc
            · exact hlater piece hp hc
          · rename_i hd
            rcases List.mem_cons.mp h with rfl | hp
            · rcases List.mem_cons.mp hc with rfl | hfirst
              · exact ⟨List.mem_cons_self, eq_false_of_ne_true hd⟩
              · exact hlater first List.mem_cons_self hfirst
            · exact hlater piece (List.mem_cons_of_mem first hp) hc

theorem splitsInto_iff {sep : Char} {cs : List Char} {pieces : List (List Char)} :
    SplitsInto sep cs pieces ↔ splitChars (· == sep) cs = pieces := by
  have hsplit : splitChars (· == sep) cs = cs.splitOn sep := splitChars_eq_splitOnP _ cs
  constructor
  · rintro ⟨rfl, hwhole, hpresent⟩
    exact hsplit.trans (List.splitOn_intercalate sep hwhole hpresent)
  · rintro rfl
    refine ⟨?_, fun p hp hsep => ?_, splitChars_ne_nil _ cs⟩
    · rw [hsplit, List.intercalate_splitOn]
    · exact absurd (of_mem_splitChars hp hsep).2 (by simp)

theorem SplitsInto.mem {sep : Char} {cs : List Char} {pieces : List (List Char)}
    (h : SplitsInto sep cs pieces) {c : Char} (hc : c ∈ cs) : c = sep ∨ ∃ p ∈ pieces, c ∈ p := by
  obtain ⟨rfl, -, -⟩ := h
  induction pieces with
  | nil => cases hc
  | cons p rest ih =>
      cases rest with
      | nil => exact .inr ⟨p, List.mem_cons_self, by simpa using hc⟩
      | cons q rest =>
          rw [List.intercalate_cons_cons, List.mem_append, List.mem_append] at hc
          rcases hc with (hp | hsep) | hlater
          · exact .inr ⟨p, List.mem_cons_self, hp⟩
          · exact .inl (List.mem_singleton.mp hsep)
          · obtain hsep | ⟨r, hr, hcr⟩ := ih hlater
            · exact .inl hsep
            · exact .inr ⟨r, List.mem_cons_of_mem p hr, hcr⟩

/-! ## Trimming -/

/-- What is left of a text without the blanks around it. -/
structure Trims (cs core : List Char) : Prop where
  surrounded : ∃ before after, cs = before ++ core ++ after ∧
    (∀ c ∈ before, isBlank c = true) ∧ ∀ c ∈ after, isBlank c = true
  first : ∀ c, core.head? = some c → isBlank c = false
  last : ∀ c, core.getLast? = some c → isBlank c = false

theorem trimStart_eq_iff {cs rest : List Char} :
    trimStart cs = rest ↔ (∃ before, cs = before ++ rest ∧ ∀ c ∈ before, isBlank c = true) ∧
      ∀ c, rest.head? = some c → isBlank c = false := by
  constructor
  · rintro rfl
    refine ⟨⟨cs.takeWhile isBlank, List.takeWhile_append_dropWhile.symm,
      List.all_eq_true.mp List.all_takeWhile⟩, fun c hc => ?_⟩
    have hfirst := List.head?_dropWhile_not isBlank cs
    rw [trimStart] at hc
    rw [hc] at hfirst
    exact hfirst
  · rintro ⟨⟨before, rfl, hbefore⟩, hfirst⟩
    rw [trimStart, List.dropWhile_append_of_pos hbefore]
    cases rest with
    | nil => rfl
    | cons c rest => simp [hfirst c rfl]

theorem trims_iff {cs core : List Char} : Trims cs core ↔ trimChars cs = core := by
  constructor
  · rintro ⟨⟨before, after, rfl, hbefore, hafter⟩, hfirst, hlast⟩
    cases core with
    | nil =>
        -- Nothing but blanks, all of which are before the rest.
        have hblank : trimStart (before ++ [] ++ after) = [] := by
          refine trimStart_eq_iff.mpr ⟨⟨before ++ after, by simp, fun c hc => ?_⟩, nofun⟩
          exact (List.mem_append.mp hc).elim (hbefore c) (hafter c)
        rw [trimChars, hblank]
        rfl
    | cons c core =>
        have hstart : trimStart (before ++ c :: core ++ after) = c :: core ++ after := by
          refine trimStart_eq_iff.mpr ⟨⟨before, List.append_assoc .., hbefore⟩, fun d hd => ?_⟩
          exact hfirst d (by simpa using hd)
        have hend : trimStart (c :: core ++ after).reverse = (c :: core).reverse := by
          refine trimStart_eq_iff.mpr ⟨⟨after.reverse, List.reverse_append, ?_⟩, fun d hd => ?_⟩
          · exact fun d hd => hafter d (List.mem_reverse.mp hd)
          · exact hlast d (List.head?_reverse ▸ hd)
        rw [trimChars, hstart, hend, List.reverse_reverse]
  · rintro rfl
    obtain ⟨⟨before, hstart, hbefore⟩, hfirst⟩ := trimStart_eq_iff.mp (rfl : trimStart cs = _)
    obtain ⟨⟨after, hend, hafter⟩, hlast⟩ :=
      trimStart_eq_iff.mp (rfl : trimStart (trimStart cs).reverse = _)
    have hmiddle : trimStart cs = trimChars cs ++ after.reverse := by
      rw [← List.reverse_reverse (trimStart cs), hend, List.reverse_append]
      rfl
    refine ⟨⟨before, after.reverse, ?_, hbefore, ?_⟩, fun c hc => ?_, fun c hc => ?_⟩
    · rw [List.append_assoc, ← hmiddle]
      exact hstart
    · exact fun c hc => hafter c (List.mem_reverse.mp hc)
    · refine hfirst c ?_
      rw [hmiddle, List.head?_append, hc]
      rfl
    · refine hlast c ?_
      rw [← List.getLast?_reverse]
      exact hc

theorem Trims.subset {cs core : List Char} (h : Trims cs core) : core ⊆ cs := by
  obtain ⟨⟨before, after, rfl, -, -⟩, -, -⟩ := h
  intro c hc
  exact List.mem_append_left after (List.mem_append_right before hc)

theorem Trims.again {cs core : List Char} (h : Trims cs core) : Trims core core :=
  ⟨⟨[], [], by simp, nofun, nofun⟩, h.first, h.last⟩

end EdgeAgent.Text
