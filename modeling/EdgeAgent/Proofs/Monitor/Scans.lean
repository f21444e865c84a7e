import EdgeAgent.Proofs.Monitor.Sensors
import EdgeAgent.Proofs.Monitor.Vulnerability

/-! # Scans that find nothing

The monitor of vulnerabilities takes up the findings of each scan. A scan that has found
nothing leaves those of an earlier one where they are, just like a scan that is missing,
blank or cannot be read. So what is reported is what the last scan with findings has found.
-/

namespace EdgeAgent

namespace Text

theorem isBlank_iff {c : Char} :
    isBlank c = true ↔ ∃ r ∈ blankRanges, r.1 ≤ c.toNat ∧ c.toNat ≤ r.2 := by
  simp [isBlank]

end Text

namespace Json

theorem digit?_of_isBlank {c : Char} (h : Text.isBlank c = true) : Decimal.digit? c = none := by
  refine if_neg fun hdigit => ?_
  have hlow : '0'.toNat ≤ c.toNat := hdigit.1
  have hhigh : c.toNat ≤ '9'.toNat := hdigit.2
  have hzero : '0'.toNat = 48 := rfl
  have hnine : '9'.toNat = 57 := rfl
  obtain ⟨r, hr, hle⟩ := Text.isBlank_iff.mp h
  simp only [Text.blankRanges, List.mem_cons, List.not_mem_nil, or_false] at hr
  rcases hr with rfl | rfl | rfl | rfl | rfl | rfl | rfl | rfl | rfl | rfl <;>
    simp only at hle <;> omega

theorem value_of_isBlank {cs : List Char} (h : ∀ c ∈ cs, Text.isBlank c = true) (fuel : Nat) :
    ∃ f, (Reader.value fuel cs).1 = .broken f := by
  cases fuel with
  | zero => exact ⟨_, rfl⟩
  | succ fuel =>
      rw [Reader.value]
      have hblank : ∀ c ∈ Reader.skipSpace cs, Text.isBlank c = true :=
        fun c hc => h c (List.dropWhile_suffix _ |>.subset hc)
      cases hcs : Reader.skipSpace cs with
      | nil => exact ⟨_, rfl⟩
      | cons c rest =>
          have hc : Text.isBlank c = true := hblank c (hcs ▸ List.mem_cons_self)
          have hdigit := digit?_of_isBlank hc
          simp only
          split
          case h_8 => simp [hdigit]
          all_goals exact absurd hc (by decide)

theorem parseItems_of_isBlankText {s : String} (h : Text.isBlankText s = true)
    (items : List Json) : parseItems s ≠ .ok items := by
  obtain ⟨f, hread⟩ := value_of_isBlank (List.all_eq_true.mp h) (s.toList.length + 1)
  intro hitems
  unfold parseItems decode Reader.read at hitems
  generalize Reader.value (s.toList.length + 1) s.toList = out at *
  obtain ⟨t, rest⟩ := out
  obtain rfl : t = .broken f := hread
  simp only [bind, Except.bind] at hitems
  split at hitems
  · cases hitems
  · rename_i hmismatch
    exact absurd hmismatch (mismatch_ne_ok _ _)

end Json

/-! ## After a history of scans -/

namespace Vulnerabilities

open VulnerabilityReport

/-- The findings in the file, if it holds a list of them. -/
def scan? (w : World) : Option (List Json) :=
  match w.files.read (file w.sharedRoot) with
  | .ok s => (Json.parseItems s).toOption
  | .error _ => none

/-- The report on the findings in the file, if there are any. -/
def found? (w : World) : Option VulnerabilityReport := (scan? w).bind ofItems

theorem ofItems_eq_none_iff {items : List Json} : ofItems items = none ↔ items = [] := by
  unfold ofItems
  cases items <;> simp

theorem found?_eq_none_iff {w : World} :
    found? w = none ↔ ∀ items, scan? w = some items → items = [] := by
  rw [found?, Option.bind_eq_none_iff]
  simp only [ofItems_eq_none_iff]

theorem update_of_scan? {w : World} {items : List Json} (h : scan? w = some items)
    (v : Vulnerabilities) : v.update w = .ok ⟨(found? w).or v.report⟩ := by
  have hfound : found? w = ofItems items := by rw [found?, h, Option.bind_some]
  unfold scan? at h
  unfold update
  cases hread : w.files.read (file w.sharedRoot) with
  | error e => simp [hread] at h
  | ok s =>
      cases hitems : Json.parseItems s with
      | error m => simp [hread, hitems, Except.toOption] at h
      | ok others =>
          obtain rfl : others = items := by
            simpa [hread, hitems, Except.toOption] using h
          have hblank : Text.isBlankText s = false :=
            eq_false_of_ne_true fun hblank => Json.parseItems_of_isBlankText hblank _ hitems
          simp only [hblank, hitems, hfound]
          cases ofItems others with
          | none => rfl
          | some r => rfl

theorem update_of_no_scan {w : World} (h : scan? w = none) (v : Vulnerabilities) :
    Fails (v.update w) ∨ v.update w = .ok v := by
  unfold scan? at h
  unfold update
  cases hread : w.files.read (file w.sharedRoot) with
  | error e => cases e <;> simp
  | ok s =>
      cases hitems : Json.parseItems s with
      | error m => cases hblank : Text.isBlankText s <;> simp [hitems, hblank]
      | ok items => simp [hread, hitems, Except.toOption] at h

end Vulnerabilities

namespace Builtin

open Vulnerabilities VulnerabilityReport

theorem pass_of_scan? {w : World} {items : List Json} (h : scan? w = some items)
    (v : Vulnerabilities) :
    (vulnerability v).pass w = .ok (.vulnerability ⟨(found? w).or v.report⟩, w) := by
  rw [pass, update_of_scan? h]
  rfl

theorem after_vulnerability (ws : List World) :
    (vulnerability {}).after ws = vulnerability ⟨ws.findSome? found?⟩ := by
  induction ws with
  | nil => rfl
  | cons w ws ih =>
      rw [after, ih, List.findSome?_cons]
      cases hscan : scan? w with
      | some items =>
          rw [pass_of_scan? hscan]
          cases found? w <;> rfl
      | none =>
          have hfound : found? w = none := by rw [found?, hscan, Option.bind_none]
          rw [hfound, pass]
          rcases update_of_no_scan hscan ⟨ws.findSome? found?⟩ with ⟨e, herror⟩ | hok
          · rw [herror]
            rfl
          · rw [hok]
            rfl

theorem populate_vulnerability_eq_self_iff (report : Option VulnerabilityReport) :
    (∀ p, (vulnerability ⟨report⟩).populate p = p) ↔ report = none := by
  cases report with
  | none => exact iff_of_true (fun _ => rfl) rfl
  | some r =>
      refine iff_of_false (fun hself => ?_) (by simp)
      have hvalue := value_populate (r := r) {}
      have hempty : (Vulnerabilities.populate ⟨some r⟩ {}).value .vulnerabilities = none :=
        congrArg (·.value .vulnerabilities) (hself {})
      rw [hempty] at hvalue
      cases hvalue

/-- What the monitor reports after the scan in `w` and those before it, the last one of them
first. -/
structure RecallsFindings (ws : List World) (w : World) : Prop where
  /-- A list is read whatever was known before. -/
  reads : ∀ items, scan? w = some items → ¬Fails (((vulnerability {}).after ws).pass w)
  /-- Findings are reported as they are in the file, and nothing else. -/
  findings : ∀ items, scan? w = some items → items ≠ [] → ∃ r, ofItems items = some r ∧
    ∀ p, ((vulnerability {}).after (w :: ws)).populate p = p.put .vulnerabilities r.toJson
  clean : scan? w = some [] → (vulnerability {}).after (w :: ws) = (vulnerability {}).after ws
  holds : (vulnerability {}).after (w :: ws) = vulnerability ⟨(w :: ws).findSome? found?⟩
  /-- The last scan alone makes the report unless it is clean and an earlier one was not. -/
  current_iff : ∀ items, scan? w = some items →
    ((∀ p, ((vulnerability {}).after (w :: ws)).populate p =
        ((vulnerability {}).after [w]).populate p) ↔
      (items = [] → ∀ v ∈ ws, ∀ earlier, scan? v = some earlier → earlier = []))

theorem vulnerabilities_recall (ws : List World) (w : World) : RecallsFindings ws w where
  reads items h := by
    rw [after_vulnerability, pass_of_scan? h]
    rintro ⟨e, herror⟩
    cases herror
  findings items h hsome := by
    obtain ⟨r, hr⟩ := Option.ne_none_iff_exists'.mp (mt ofItems_eq_none_iff.mp hsome)
    have hfound : found? w = some r := by rw [found?, h, Option.bind_some, hr]
    refine ⟨r, hr, fun p => ?_⟩
    rw [after_vulnerability, List.findSome?_cons, hfound]
    rfl
  clean h := by
    have hfound : found? w = none := by
      rw [found?, h, Option.bind_some, ofItems_eq_none_iff]
    rw [after_vulnerability, after_vulnerability, List.findSome?_cons, hfound]
  holds := after_vulnerability (w :: ws)
  current_iff items h := by
    have hfound : found? w = ofItems items := by rw [found?, h, Option.bind_some]
    rw [after_vulnerability, after_vulnerability, List.findSome?_cons, List.findSome?_singleton,
      hfound]
    cases hitems : ofItems items with
    | some r =>
        have hsome : items ≠ [] := fun hnil => by simp [ofItems_eq_none_iff.mpr hnil] at hitems
        exact iff_of_true (fun _ => rfl) fun hnil => absurd hnil hsome
    | none =>
        have hnil : items = [] := ofItems_eq_none_iff.mp hitems
        have hunset := populate_vulnerability_eq_self_iff (ws.findSome? found?)
        simp only [hnil, true_imp_iff]
        simp only [List.findSome?_eq_none_iff, found?_eq_none_iff] at hunset
        exact hunset

/-! ### A clean scan after one with a finding -/

def scanWorld (text : String) : World where
  files := ⟨[(["vulnerabilities"], .file (some text))]⟩
  sharedRoot := []

def findingWorld : World :=
  scanWorld "[\x7b\"product\": \"curl\", \"vulnerability-score\": 5.0\x7d]"

def cleanWorld : World := scanWorld "[]"

theorem scan?_cleanWorld : scan? cleanWorld = some [] := rfl

theorem found?_findingWorld : (found? findingWorld).isSome = true := by decide +kernel

/-- The finding is still reported when the scan is clean. -/
theorem not_current_clean :
    ¬∀ (ws : List World) (w : World) (items : List Json), scan? w = some items →
      (((vulnerability {}).after (w :: ws)).populate {}).value .vulnerabilities =
        (ofItems items).map toJson := by
  intro hcurrent
  have hreport := hcurrent [findingWorld] cleanWorld [] scan?_cleanWorld
  obtain ⟨r, hr⟩ := Option.isSome_iff_exists.mp found?_findingWorld
  have hclean : found? cleanWorld = none := rfl
  rw [after_vulnerability, List.findSome?_cons, hclean, List.findSome?_singleton, hr] at hreport
  have hvalue := value_populate (r := r) {}
  have hnone : (Vulnerabilities.populate ⟨some r⟩ {}).value .vulnerabilities = none := hreport
  rw [hnone] at hvalue
  cases hvalue

end Builtin
end EdgeAgent
