import EdgeAgent.Proofs.Files
import EdgeAgent.Proofs.Monitor.Vulnerability
import EdgeAgent.Proofs.Payload.Changes
import EdgeAgent.Server.StatusFile

/-! # What the status file takes, and what it gives back

Every report is put into the document that was read before, so a document that
cannot be read any more is the end of all reports. The writer sets no limit to
the nesting, the reader does.
-/

namespace EdgeAgent.StatusFile

open Json

/-! ## One report -/

theorem take_ok {s : Step} {refusal : Refusal} {f g : Files}
    {act : Files → Except FileError Files} (h : s.take refusal f act = (.ok (), g)) :
    act f = .ok g := by
  unfold Step.take at h
  split at h
  · cases h
  · split at h
    · cases h
    · rename_i hact
      rw [hact, (Prod.mk.inj h).2]

theorem take_error {s : Step} {refusal : Refusal} {f g : Files} {e : ServerError}
    {act : Files → Except FileError Files} (h : s.take refusal f act = (.error e, g)) : g = f := by
  unfold Step.take at h
  split at h
  · exact (Prod.mk.inj h).2.symm
  · split at h
    · exact (Prod.mk.inj h).2.symm
    · cases h

theorem take_never {s : Step} {f g : Files} {act : Files → Except FileError Files}
    (h : act f = .ok g) : s.take .never f act = (.ok (), g) := by
  simp only [Step.take, Refusal.never, h]

theorem write_ok {refusal : Refusal} {f g : Files} {path : Path} {d : Document}
    (h : write refusal f path d = (.ok (), g)) : ∃ f₁ f₂ : Files,
      f₁.write (draftPath path) (Json.ofDocument d).prettyText = .ok f₂ ∧
        f₂.rename (draftPath path) path = .ok g := by
  unfold write at h
  split at h
  · cases h
  · split at h
    · cases h
    · rename_i hdraft
      exact ⟨_, _, take_ok hdraft, take_ok h⟩

theorem read_of_write {refusal : Refusal} {f g : Files} {path : Path} {d : Document}
    (h : write refusal f path d = (.ok (), g)) :
    g.read path = .ok (Json.ofDocument d).prettyText := by
  obtain ⟨_, _, hdraft, hmove⟩ := write_ok h
  exact Files.read_rename (Files.read_write hdraft) hmove

theorem draftPath_spec {path : Path} (h : path ≠ []) :
    draftPath path ≠ [] ∧ (draftPath path).dropLast = path.dropLast ∧
      (draftPath path).length = path.length := by
  have hlength := List.length_pos_iff.mpr h
  have hlast : path.getLast? = some (path.getLast h) := List.getLast?_eq_some_getLast h
  simp only [draftPath, Path.withExtension, hlast]
  refine ⟨by simp, by simp, ?_⟩
  rw [List.length_append, List.length_dropLast, List.length_singleton]
  omega

theorem draftPath_ne {path : Path} (h : path ≠ []) : draftPath path ≠ path := by
  obtain ⟨before, name, rfl⟩ : ∃ before name, path = before ++ [name] :=
    ⟨path.dropLast, path.getLast h, (List.dropLast_concat_getLast h).symm⟩
  have hdot : ".".length = 1 := rfl
  have hextension : "json.tmp".length = 8 := rfl
  simp only [draftPath, Path.withExtension, List.getLast?_concat, List.dropLast_concat]
  intro hsame
  have hsame := List.singleton_inj.mp (List.append_cancel_left hsame)
  have hlength := congrArg String.length hsame
  rw [String.length_append, String.length_append, hdot, hextension] at hlength
  split at hsame
  · rename_i hempty
    rw [if_pos hempty] at hlength
    omega
  · -- The last extension is gone, and there are two more in its place.
    rename_i hstem
    have hbehind : (name.toList.reverse.takeWhile (· != '.')).length = 3 := by
      rw [← hsame]
      simp
    rw [if_neg hstem, String.length_ofList, List.length_take, hbehind,
      String.length_toList] at hlength
    omega

theorem read_of_write_error {refusal : Refusal} {f g : Files} {path : Path} {d : Document}
    {e : ServerError} {text : String} (hread : f.read path = .ok text)
    (h : write refusal f path d = (.error e, g)) : g.read path = .ok text := by
  obtain ⟨hpath, hdirectory⟩ := Files.look_dropLast_of_read hread
  unfold write at h
  split at h
  · rename_i hdirectories
    obtain rfl := (Prod.mk.inj h).2
    rw [take_error hdirectories]
    exact hread
  · rename_i f₁ hdirectories
    obtain rfl : f₁ = f := by
      have hmade := take_ok hdirectories
      rw [Files.createDirectories_of_look hdirectory] at hmade
      exact (Except.ok.inj hmade).symm
    split at h
    · rename_i hdraft
      obtain rfl := (Prod.mk.inj h).2
      rw [take_error hdraft]
      exact hread
    · rename_i hdraft
      have hbeside := Files.read_put_of_ne (draftPath_ne hpath).symm
        (draftPath_spec hpath).2.2.ge (take_ok hdraft)
      rw [take_error h, hbeside]
      exact hread

/-- Nothing is in the way of writing. -/
structure Writable (path : Path) (f : Files) : Prop where
  directory : f.look path.dropLast = .ok .directory
  file : f.node? path ≠ some .directory
  draft : f.node? (draftPath path) ≠ some .directory

theorem Writable.write {path : Path} {f : Files} (h : Writable path f) (d : Document) :
    ∃ g, write .never f path d = (.ok (), g) := by
  obtain ⟨_, hbeside, hlength⟩ := draftPath_spec (Files.ne_nil_of_node? h.file)
  obtain ⟨f₁, g, hwrite, hrename⟩ := Files.rename_written h.draft h.file h.directory hbeside hlength
    (Json.ofDocument d).prettyText
  have hdirectories : Step.directories.take .never f (·.createDirectories path.dropLast) =
      (.ok (), f) := take_never (Files.createDirectories_of_look h.directory)
  have hdraft : Step.draft.take .never f
      (·.write (draftPath path) (Json.ofDocument d).prettyText) = (.ok (), f₁) := take_never hwrite
  have hmove : Step.move.take .never f₁ (·.rename (draftPath path) path) = (.ok (), g) :=
    take_never hrename
  exact ⟨g, by simp only [StatusFile.write, hdirectories, hdraft, hmove]⟩

theorem writable_of_write {refusal : Refusal} {f g : Files} {path : Path} {d : Document}
    (h : write refusal f path d = (.ok (), g)) : Writable path g := by
  obtain ⟨_, f₂, hdraft, hmove⟩ := write_ok h
  have hread := Files.read_write hdraft
  have hput := hmove
  rw [Files.rename_eq_put hread] at hput
  obtain ⟨hdirectory, hfree, hg⟩ := Files.put_eq_ok_iff.mp hput
  have hpath := Files.ne_nil_of_node? hfree
  refine ⟨?_, ?_, Files.node?_of_rename (draftPath_spec hpath).1 hread hmove⟩
  · rw [hg, Files.look_replace _ hpath]
    exact hdirectory
  · rw [hg, Files.node?_replace_self _ hpath]
    exact nofun

theorem fits_read {f : Files} {path : Path} {d : Document} (h : read f path = .ok d) :
    (ofDocument d).depth ≤ depthLimit ∧ (ofDocument d).Ranged := by
  unfold read at h
  split at h
  · rename_i text _
    cases hd : Json.document text with
    | error e =>
        rw [hd] at h
        cases h
    | ok e =>
        rw [hd] at h
        obtain rfl := Except.ok.inj h
        exact fits_document hd
  · obtain rfl := Except.ok.inj h
    exact ⟨by decide, trivial⟩
  · cases h

/-! ## The document of a report -/

theorem mem_apply {d data : Document} {delete : List String} {r : String × Json}
    (h : r ∈ (Document.apply d data delete).rows) : r ∈ data.rows ∨ r ∈ d.rows := by
  refine (Table.mem_insertAll h).imp_right fun hkept => ?_
  exact (List.mem_filter.mp hkept).1

theorem mem_apply_of_mem {data : Document} {r : String × Json} (h : r ∈ data.rows) (d : Document)
    (delete : List String) : r ∈ (Document.apply d data delete).rows := by
  rw [← Table.find?_eq_some_iff] at h ⊢
  rw [Document.find?_apply, h, Option.some_or]

theorem depth_ofDocument_le_iff {d : Document} :
    (ofDocument d).depth ≤ depthLimit ↔ ∀ m ∈ d.rows, m.2.depth ≤ 126 :=
  Nat.succ_le_succ_iff.trans depthMembers_le_iff

/-- What was read before does not decide how deep the document is. -/
theorem depth_apply_le_iff {d data : Document} {delete : List String}
    (h : (ofDocument d).depth ≤ depthLimit) :
    (ofDocument (Document.apply d data delete)).depth ≤ depthLimit ↔
      (ofDocument data).depth ≤ depthLimit := by
  rw [depth_ofDocument_le_iff] at h ⊢
  rw [depth_ofDocument_le_iff]
  constructor
  · intro hall m hm
    exact hall m (mem_apply_of_mem hm d delete)
  · intro hdata m hm
    rcases mem_apply hm with hm | hm
    · exact hdata m hm
    · exact h m hm

theorem ranged_apply {d data : Document} {delete : List String} (hd : (ofDocument d).Ranged)
    (hdata : (ofDocument data).Ranged) : (ofDocument (Document.apply d data delete)).Ranged :=
  rangedMembers_iff.mpr fun m hm => (mem_apply hm).elim
    (rangedMembers_iff.mp hdata m) (rangedMembers_iff.mp hd m)

theorem telemetry_ok {refusal : Refusal} {f g : Files} {path : Path} {data : Document}
    {delete : List String} (h : telemetry refusal f path data delete = (.ok (), g)) :
    ∃ d, read f path = .ok d ∧
      write refusal f path (Document.apply d data delete) = (.ok (), g) := by
  unfold telemetry at h
  split at h
  · cases h
  · exact ⟨_, by assumption, h⟩

theorem read_of_telemetry_error {refusal : Refusal} {f g : Files} {path : Path} {data : Document}
    {delete : List String} {e : ServerError} {text : String} (hread : f.read path = .ok text)
    (h : telemetry refusal f path data delete = (.error e, g)) : g.read path = .ok text := by
  unfold telemetry at h
  split at h
  · rw [← (Prod.mk.inj h).2]
    exact hread
  · exact read_of_write_error hread h

/-! ## Later reports -/

/-- A report that is sent, and what the file system holds against writing it. -/
structure Call where
  refusal : Refusal
  data : Document
  delete : List String

/-- The file system takes the report, and the reader is not refused its nesting. -/
structure Call.IsStorable (c : Call) : Prop where
  refusal : c.refusal = .never
  ranged : (ofDocument c.data).Ranged
  depth : (ofDocument c.data).depth ≤ depthLimit

def serve (path : Path) (f : Files) : List Call → List (Except ServerError Unit) × Files
  | [] => ([], f)
  | c :: rest =>
    let (outcome, f) := telemetry c.refusal f path c.data c.delete
    let (outcomes, f) := serve path f rest
    (outcome :: outcomes, f)

theorem serve_of_read_error {f : Files} {path : Path} {e : ServerError} (h : read f path = .error e)
    (calls : List Call) : serve path f calls = (calls.map fun _ => .error e, f) := by
  induction calls with
  | nil => rfl
  | cons c rest ih =>
      have hfails : telemetry c.refusal f path c.data c.delete = (.error e, f) := by
        rw [telemetry, h]
      simp only [serve, hfails, ih, List.map_cons]

theorem read_of_telemetry {refusal : Refusal} {f g : Files} {path : Path} {data : Document}
    {delete : List String} (hranged : (ofDocument data).Ranged)
    (h : telemetry refusal f path data delete = (.ok (), g)) :
    ((ofDocument data).depth ≤ depthLimit ∧ ∃ d, read g path = .ok d) ∨
      depthLimit < (ofDocument data).depth ∧
        ∃ c, read g path = .error (.undecodable c) ∧ c.IsTooDeep := by
  obtain ⟨d, hread, hwrite⟩ := telemetry_ok h
  obtain ⟨hdepth, hold⟩ := fits_read hread
  have hlimit : (ofDocument (Document.apply d data delete)).depth ≤ depthLimit ↔ _ :=
    depth_apply_le_iff hdepth
  rcases document_prettyText (ranged_apply hold hranged) with
    ⟨hfits, e, he⟩ | ⟨hdeep, c, hc, hreason⟩
  · refine .inl ⟨hlimit.mp hfits, e, ?_⟩
    simp only [read, read_of_write hwrite, he]
    rfl
  · have hlong : depthLimit < (ofDocument data).depth :=
      Nat.lt_of_not_le fun hfits => Nat.not_lt.mpr (hlimit.mpr hfits) hdeep
    refine .inr ⟨hlong, c, ?_, hreason⟩
    simp only [read, read_of_write hwrite, hc]
    rfl

/-- The file is there, and a document is read from it. -/
def Holds (f : Files) (path : Path) (d : Document) : Prop :=
  ∃ text, f.read path = .ok text ∧ document text = .ok d

theorem Holds.read {f : Files} {path : Path} {d : Document} (h : Holds f path d) :
    read f path = .ok d := by
  obtain ⟨text, htext, hd⟩ := h
  rw [StatusFile.read, htext]
  simp only [hd]
  rfl

theorem Holds.of_telemetry_ok {refusal : Refusal} {f g : Files} {path : Path} {d data : Document}
    {delete : List String} (h : Holds f path d) (hranged : (ofDocument data).Ranged)
    (hdepth : (ofDocument data).depth ≤ depthLimit)
    (hg : telemetry refusal f path data delete = (.ok (), g)) :
    ∃ e, Holds g path e ∧ e.keys = (Document.apply d data delete).keys := by
  obtain ⟨d', hd', hwrite⟩ := telemetry_ok hg
  obtain rfl := Except.ok.inj (h.read.symm.trans hd')
  obtain ⟨hfits, hold⟩ := fits_read h.read
  have hall : (ofDocument (Document.apply d data delete)).Ranged := ranged_apply hold hranged
  rcases document_prettyText hall with ⟨_, e, he⟩ | ⟨hdeep, _⟩
  · exact ⟨e, ⟨_, read_of_write hwrite, he⟩, keys_of_prettyText hall he⟩
  · exact absurd ((depth_apply_le_iff hfits).mpr hdepth) (Nat.not_le.mpr hdeep)

theorem Holds.of_telemetry_error {refusal : Refusal} {f g : Files} {path : Path}
    {d data : Document} {delete : List String} {e : ServerError} (h : Holds f path d)
    (hg : telemetry refusal f path data delete = (.error e, g)) : Holds g path d := by
  obtain ⟨text, htext, hd⟩ := h
  exact ⟨text, read_of_telemetry_error htext hg, hd⟩

/-- The file is read, and can be written. -/
def Ready (path : Path) (f : Files) : Prop := (∃ d, read f path = .ok d) ∧ Writable path f

theorem Ready.telemetry {path : Path} {f : Files} (h : Ready path f) (data : Document)
    (delete : List String) : ∃ g, telemetry .never f path data delete = (.ok (), g) := by
  obtain ⟨⟨d, hread⟩, hwritable⟩ := h
  obtain ⟨g, hwrite⟩ := hwritable.write (Document.apply d data delete)
  exact ⟨g, by simp only [StatusFile.telemetry, hread, hwrite]⟩

theorem ready_empty : Ready ["status.json"] .empty :=
  ⟨⟨Table.empty, rfl⟩, rfl, by decide, by decide⟩

theorem ready_of_telemetry {refusal : Refusal} {f g : Files} {path : Path} {data : Document}
    {delete : List String} (hranged : (ofDocument data).Ranged)
    (hdepth : (ofDocument data).depth ≤ depthLimit)
    (h : telemetry refusal f path data delete = (.ok (), g)) : Ready path g := by
  obtain ⟨_, _, hwrite⟩ := telemetry_ok h
  rcases read_of_telemetry hranged h with ⟨_, hread⟩ | ⟨hdeep, _⟩
  · exact ⟨hread, writable_of_write hwrite⟩
  · exact absurd hdeep (Nat.not_lt.mpr hdepth)

theorem Ready.serve {path : Path} {f : Files} (h : Ready path f) {calls : List Call}
    (hcalls : ∀ c ∈ calls, c.IsStorable) :
    (serve path f calls).1 = calls.map (fun _ => .ok ()) ∧ Ready path (serve path f calls).2 := by
  induction calls generalizing f with
  | nil => exact ⟨rfl, h⟩
  | cons c rest ih =>
      have hc := hcalls c (by simp)
      obtain ⟨g, hg⟩ := h.telemetry c.data c.delete
      obtain ⟨houtcomes, hready⟩ := ih (ready_of_telemetry hc.ranged hc.depth hg)
        fun b hb => hcalls b (List.mem_cons_of_mem _ hb)
      have hstep : StatusFile.serve path f (c :: rest) =
          (.ok () :: (StatusFile.serve path g rest).1, (StatusFile.serve path g rest).2) := by
        simp only [StatusFile.serve, hc.refusal, hg]
      rw [hstep]
      exact ⟨by rw [houtcomes, List.map_cons], hready⟩

/-- The document that an accepted report leaves is read again exactly if the report is
nested no deeper than the reader allows. Then the reports that follow are taken over as
long as those before them are not nested too deep; otherwise every later one fails for
that reason, and the file stays as it is. -/
theorem readable_iff_of_telemetry {refusal : Refusal} {f g : Files} {path : Path} {data : Document}
    {delete : List String} (hranged : (ofDocument data).Ranged)
    (h : telemetry refusal f path data delete = (.ok (), g)) :
    ((∃ d, read g path = .ok d) ↔ (ofDocument data).depth ≤ depthLimit) ∧
      ((ofDocument data).depth ≤ depthLimit → ∀ calls : List Call, (∀ c ∈ calls, c.IsStorable) →
        (serve path g calls).1 = calls.map (fun _ => .ok ()) ∧
          ∀ data' delete', ∃ g',
            telemetry .never (serve path g calls).2 path data' delete' = (.ok (), g')) ∧
      (depthLimit < (ofDocument data).depth → ∃ c : Complaint, c.IsTooDeep ∧
        ∀ calls, serve path g calls = (calls.map fun _ => .error (.undecodable c), g)) := by
  rcases read_of_telemetry hranged h with ⟨hfits, hread⟩ | ⟨hdeep, c, hc, hreason⟩
  · refine ⟨⟨fun _ => hfits, fun _ => hread⟩, fun _ calls hcalls => ?_, fun hdeep => ?_⟩
    · obtain ⟨houtcomes, hready⟩ := (ready_of_telemetry hranged hfits h).serve hcalls
      exact ⟨houtcomes, hready.telemetry⟩
    · exact absurd hdeep (Nat.not_lt.mpr hfits)
  · refine ⟨⟨fun ⟨e, he⟩ => ?_, fun hfits => ?_⟩, fun hfits => ?_, fun _ => ?_⟩
    · rw [hc] at he
      cases he
    · exact absurd hdeep (Nat.not_lt.mpr hfits)
    · exact absurd hdeep (Nat.not_lt.mpr hfits)
    · exact ⟨c, hreason, serve_of_read_error hc⟩

/-- A first report, which is followed by another one. -/
theorem readable_iff_of_telemetry_first : ∃ g : Files, telemetry .never .empty ["status.json"]
      (Table.ofList [("status", .str "OPERATIONAL")]) [] = (.ok (), g) ∧
    (∃ d, read g ["status.json"] = .ok d) ∧
      (serve ["status.json"] g [⟨.never, .empty, ["status"]⟩]).1 = [.ok ()] := by
  obtain ⟨g, hg⟩ := ready_empty.telemetry (Table.ofList [("status", .str "OPERATIONAL")]) []
  have hranged : (ofDocument (Table.ofList [("status", .str "OPERATIONAL")])).Ranged :=
    ⟨trivial, trivial⟩
  obtain ⟨hiff, hlater, _⟩ := readable_iff_of_telemetry hranged hg
  refine ⟨g, hg, hiff.mpr (by decide), (hlater (by decide) _ fun c hc => ?_).1⟩
  rw [List.mem_singleton.mp hc]
  exact ⟨rfl, trivial, by decide⟩

/-! ## A scan -/

/-- A finding that is nested as deep as this is accepted from the scanner, and from the
report; the document that holds it is not read any more. -/
theorem read_of_finding {refusal : Refusal} {f g : Files} {path : Path} {r : VulnerabilityReport}
    {item : Json} {delete : List String} (hitems : RangedItems r.items) (htotal : r.total < 2 ^ 64)
    (hitem : item ∈ r.items) (hdeep : 124 < item.depth)
    (h : telemetry refusal f path (Vulnerabilities.populate ⟨some r⟩ .empty).toDocument delete =
      (.ok (), g)) : ∃ c, read g path = .error (.undecodable c) ∧ c.IsTooDeep := by
  have hranged : (ofDocument (Vulnerabilities.populate ⟨some r⟩ .empty).toDocument).Ranged := by
    refine Payload.ranged_toDocument fun a v hv => ?_
    by_cases ha : a = .vulnerabilities
    · subst ha
      rw [Vulnerabilities.value_populate] at hv
      rw [← Option.some.inj hv]
      exact VulnerabilityReport.ranged_toJson hitems htotal
    · have hnone : (Vulnerabilities.populate ⟨some r⟩ .empty).value a = none :=
        Payload.value_set_of_ne .empty _ (Ne.symm ha)
      rw [hnone] at hv
      cases hv
  have hdepth := Vulnerabilities.depth_populate hitem .empty
  have hlimit : depthLimit = 127 := rfl
  rcases read_of_telemetry hranged h with ⟨hfits, _⟩ | ⟨_, hrefused⟩
  · omega
  · exact hrefused

/-- A scan of one finding, which is one hundred and twenty-five arrays. -/
def scanned : World where
  files := ⟨[(["vulnerabilities"], .file (some (nested 125).prettyText))]⟩
  sharedRoot := []

/-- The scan is accepted, the report with it too, and no report after that, whatever it
holds and deletes. -/
theorem not_readable_scanned : ∃ v g, Vulnerabilities.update {} scanned = .ok v ∧
    (∃ d, read .empty ["status.json"] = .ok d) ∧
    telemetry .never .empty ["status.json"] (v.populate .empty).toDocument [] = (.ok (), g) ∧
    (¬ ∃ d, read g ["status.json"] = .ok d) ∧
    ∀ refusal data delete,
      ∃ e, telemetry refusal g ["status.json"] data delete = (.error e, g) := by
  obtain ⟨r, hupdate, hitems, htotal⟩ := Vulnerabilities.update_nested (n := 124) (w := scanned)
    (by decide) rfl {}
  obtain ⟨g, hg⟩ := ready_empty.telemetry (Vulnerabilities.populate ⟨some r⟩ .empty).toDocument []
  obtain ⟨_, hranged⟩ := fits_parseItems (parseItems_nested (n := 124) (by decide))
  obtain ⟨c, hc, _⟩ := read_of_finding (hitems ▸ hranged) (by omega)
    (hitems ▸ List.mem_singleton_self _) (by rw [depth_nested]; omega) hg
  refine ⟨_, g, hupdate, ready_empty.1, hg, ?_, fun refusal data delete =>
    ⟨.undecodable c, by rw [telemetry, hc]⟩⟩
  rintro ⟨d, hd⟩
  rw [hc] at hd
  cases hd

end EdgeAgent.StatusFile
