import EdgeAgent.Proofs.Text.Pieces
import EdgeAgent.Telemetry.Exclusion
import Mathlib.Data.List.Forall2

/-! # Which monitors a text excludes

A text lists names, and each of them means the monitors whose own names are the same up to
the last underscore. When the names are put together again with commas between them, that
text lists the same names.
-/

namespace EdgeAgent.Exclusion

/-! ## Lists of names -/

/-- Without its quotes the text is some pieces with commas between them. The names are what
the pieces come to without the blanks around them, unless nothing is left. -/
def Lists (text : String) (names : List String) : Prop :=
  ∃ pieces cores,
    Text.SplitsInto ',' (text.toList.filter fun c => c ≠ '\'' ∧ c ≠ '"') pieces ∧
      List.Forall₂ Text.Trims pieces cores ∧ names.map String.toList = cores.filter (· ≠ [])

theorem ofText_eq (text : String) :
    ofText text =
      (((Text.splitChars (· == ',') (text.toList.filter fun c => c ≠ '\'' ∧ c ≠ '"')).map
        Text.trimChars).filter (· ≠ [])).map String.ofList := by
  have hquotes : (fun c => !isQuote c) = fun c => decide (c ≠ '\'' ∧ c ≠ '"') := by
    funext c
    rw [isQuote, Bool.eq_iff_iff]
    simp
  rw [ofText, hquotes]
  generalize (Text.splitChars _ _).map Text.trimChars = cores
  induction cores with
  | nil => rfl
  | cons core rest ih =>
      rw [List.filterMap_cons, ih]
      cases core <;> rfl

theorem lists_iff {text : String} {names : List String} :
    Lists text names ↔ ofText text = names := by
  have htrims : Text.Trims = fun piece core => Text.trimChars piece = core := by
    funext piece core
    exact propext Text.trims_iff
  have hcores (pieces cores : List (List Char)) :
      List.Forall₂ Text.Trims pieces cores ↔ pieces.map Text.trimChars = cores := by
    rw [htrims, ← List.forall₂_map_left_iff, List.forall₂_eq_eq_eq]
  rw [ofText_eq]
  constructor
  · rintro ⟨pieces, cores, hpieces, htrimmed, hnames⟩
    rw [Text.splitsInto_iff.mp hpieces, (hcores _ _).mp htrimmed, ← hnames, List.map_map]
    simp
  · rintro rfl
    refine ⟨_, _, Text.splitsInto_iff.mpr rfl, (hcores _ _).mpr rfl, ?_⟩
    rw [List.map_map]
    simp

/-! ## Names put together again -/

/-- A name that may stand in a list as it is. -/
structure IsPlain (name : String) : Prop where
  filled : name.toList ≠ []
  whole : ',' ∉ name.toList
  unquoted : ∀ c ∈ name.toList, c ≠ '\'' ∧ c ≠ '"'
  trimmed : Text.Trims name.toList name.toList

theorem isPlain_of_mem_ofText {text name : String} (h : name ∈ ofText text) : IsPlain name := by
  rw [ofText_eq] at h
  obtain ⟨core, hcore, rfl⟩ := List.mem_map.mp h
  obtain ⟨hcore, hfilled⟩ := List.mem_filter.mp hcore
  obtain ⟨piece, hpiece, htrim⟩ := List.mem_map.mp hcore
  have htrims := Text.trims_iff.mpr htrim
  have hchars (c : Char) (hc : c ∈ core) : (c ≠ '\'' ∧ c ≠ '"') ∧ c ≠ ',' := by
    obtain ⟨hmem, hsep⟩ := Text.of_mem_splitChars hpiece (htrims.subset hc)
    exact ⟨of_decide_eq_true (List.mem_filter.mp hmem).2, by simpa using hsep⟩
  constructor <;> rw [String.toList_ofList]
  · exact of_decide_eq_true hfilled
  · exact fun hcomma => (hchars ',' hcomma).2 rfl
  · exact fun c hc => (hchars c hc).1
  · exact htrims.again

theorem lists_intercalate {names : List String} (h : ∀ name ∈ names, IsPlain name) :
    Lists (",".intercalate names) names := by
  cases names with
  | nil => exact lists_iff.mpr rfl
  | cons first rest =>
      have hplain {p : List Char} (hp : p ∈ (first :: rest).map String.toList) :
          ∃ name, name.toList = p ∧ IsPlain name := by
        obtain ⟨name, hname, rfl⟩ := List.mem_map.mp hp
        exact ⟨name, rfl, h name hname⟩
      have hsplit : Text.SplitsInto ',' (",".intercalate (first :: rest)).toList
          ((first :: rest).map String.toList) := by
        refine ⟨(String.toList_intercalate (s := ",")).symm, fun p hp => ?_, List.cons_ne_nil _ _⟩
        obtain ⟨name, rfl, hname⟩ := hplain hp
        exact hname.whole
      have hquotes : (",".intercalate (first :: rest)).toList.filter
          (fun c => c ≠ '\'' ∧ c ≠ '"') = (",".intercalate (first :: rest)).toList := by
        refine List.filter_eq_self.mpr fun c hc => decide_eq_true ?_
        obtain rfl | ⟨p, hp, hcp⟩ := hsplit.mem hc
        · decide
        · obtain ⟨name, rfl, hname⟩ := hplain hp
          exact hname.unquoted c hcp
      refine ⟨_, _, hquotes.symm ▸ hsplit, List.forall₂_same.mpr fun p hp => ?_, ?_⟩
      · obtain ⟨name, rfl, hname⟩ := hplain hp
        exact hname.trimmed
      · refine (List.filter_eq_self.mpr fun p hp => decide_eq_true ?_).symm
        obtain ⟨name, rfl, hname⟩ := hplain hp
        exact hname.filled

theorem ofText_intercalate_ofSetting (text : Option String) :
    ofText (",".intercalate (ofSetting text)) = ofSetting text := by
  refine lists_iff.mp (lists_intercalate fun name hname => ?_)
  cases text with
  | none => cases hname
  | some text => exact isPlain_of_mem_ofText hname

/-! ## Names of monitors -/

/-- The part of a name before its last underscore, all of it without one. -/
def IsStem (name s : String) : Prop :=
  ('_' ∉ name.toList ∧ name = s) ∨ ∃ word, name = s ++ "_" ++ word ∧ '_' ∉ word.toList

theorem isStem_iff {name s : String} : IsStem name s ↔ stem name = s := by
  -- The last underscore is the first one from behind.
  have hlast (cs word : List Char) (hword : '_' ∉ word) :
      (((cs ++ '_' :: word).reverse.dropWhile (· != '_')).drop 1).reverse = cs := by
    have hbehind : ∀ c ∈ word.reverse, (c != '_') = true := by
      intro c hc
      exact bne_iff_ne.mpr fun heq => hword (heq ▸ List.mem_reverse.mp hc)
    rw [List.reverse_append, List.reverse_cons, List.append_assoc,
      List.dropWhile_append_of_pos hbehind]
    simp
  constructor
  · rintro (⟨hnone, rfl⟩ | ⟨word, rfl, hword⟩)
    · simp [stem, hnone]
    · have hlist : (s ++ "_" ++ word).toList = s.toList ++ '_' :: word.toList := by simp
      simp only [stem, hlist, hlast s.toList word.toList hword]
      simp
  · rintro rfl
    by_cases hmem : '_' ∈ name.toList
    · obtain ⟨behind, before, hsplit, hbehind⟩ :=
        List.eq_append_cons_of_mem (List.mem_reverse.mpr hmem)
      have hname : name.toList = before.reverse ++ '_' :: behind.reverse := by
        rw [← List.reverse_reverse name.toList, hsplit]
        simp
      have hword : '_' ∉ behind.reverse := fun h => hbehind (List.mem_reverse.mp h)
      refine .inr ⟨String.ofList behind.reverse, ?_, by rwa [String.toList_ofList]⟩
      rw [← String.toList_inj]
      simp only [stem, hname, hlast _ _ hword]
      simp
    · exact .inl ⟨hmem, by simp [stem, hmem]⟩

theorem excludes_iff {names : List String} {monitor : String} :
    excludes names monitor = true ↔ ∃ s ∈ names, IsStem monitor s := by
  simp [excludes, isStem_iff]

end EdgeAgent.Exclusion
