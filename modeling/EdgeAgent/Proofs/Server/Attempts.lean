import EdgeAgent.Proofs.Json.Whole
import EdgeAgent.Proofs.Server.StatusFile

/-! # A report is stored as a whole or not at all

Whatever step of a report fails, and whatever it leaves behind, nothing of it is seen in the
status file. So the file holds what the reports that were stored come to.
-/

namespace EdgeAgent.StatusFile

open Json

/-! ## Statement -/

/-- A report that is sent. -/
structure Update where
  data : Document
  delete : List String

/-- The report has no doubles, and is not nested too deep to be read. -/
structure Update.Fits (u : Update) : Prop where
  whole : (ofDocument u.data).IsWhole
  depth : (ofDocument u.data).depth ≤ depthLimit

/-- How storing a report may go. A step that fails, for whatever reason, may have been taken
in part. -/
inductive Attempt (path : Path) (u : Update) (f : Files) : Except ServerError Unit → Files → Prop
  /-- The file is not read, or no document is read from it. -/
  | unread (e : ServerError) : Attempt path u f (.error e) f
  /-- Only some of the directories are made, or all of them and no draft. -/
  | undrafted (e : ServerError) {p : Path} {g : Files} (hp : p <+: path.dropLast)
      (hmade : f.createDirectories p = .ok g) : Attempt path u f (.error e) g
  /-- The draft holds some of the text, or anything else. -/
  | unfinished (e : ServerError) (content : Option String) {f₁ g : Files}
      (hmade : f.createDirectories path.dropLast = .ok f₁)
      (hdraft : f₁.put (draftPath path) content = .ok g) : Attempt path u f (.error e) g
  /-- The draft is not moved. -/
  | unmoved (e : ServerError) {d : Document} {f₁ g : Files} (hread : read f path = .ok d)
      (hmade : f.createDirectories path.dropLast = .ok f₁)
      (hdraft : f₁.write (draftPath path)
        (ofDocument (Document.apply d u.data u.delete)).prettyText = .ok g) :
      Attempt path u f (.error e) g
  | stored {d : Document} {f₁ f₂ g : Files} (hread : read f path = .ok d)
      (hmade : f.createDirectories path.dropLast = .ok f₁)
      (hdraft : f₁.write (draftPath path)
        (ofDocument (Document.apply d u.data u.delete)).prettyText = .ok f₂)
      (hmove : f₂.rename (draftPath path) path = .ok g) : Attempt path u f (.ok ()) g

/-- Reports one after the other, with their outcomes. -/
inductive Attempts (path : Path) : Files → List (Update × Except ServerError Unit) → Files → Prop
  | nil (f : Files) : Attempts path f [] f
  | cons {u : Update} {outcome : Except ServerError Unit} {f g h : Files}
      {log : List (Update × Except ServerError Unit)} (hfirst : Attempt path u f outcome g)
      (hrest : Attempts path g log h) : Attempts path f ((u, outcome) :: log) h

/-- The document after a report, which counts only if it was stored. -/
def follow (d : Document) : Update × Except ServerError Unit → Document
  | (u, .ok _) => Document.apply d u.data u.delete
  | (_, .error _) => d

/-- The document that the reports come to which were stored. -/
def account (log : List (Update × Except ServerError Unit)) : Document :=
  log.foldl follow Table.empty

/-- What the file holds after some reports, and what further reports do to it. -/
structure Accounts (path : Path) (log : List (Update × Except ServerError Unit)) (f : Files) :
    Prop where
  document : read f path = .ok (account log)
  /-- A report that fails leaves the file as it is, or leaves none. -/
  unchanged : ∀ {u e g}, Attempt path u f (.error e) g → g.read path = f.read path
  /-- A report that is stored has its deleted names removed first. -/
  updated : ∀ {u g}, u.Fits → Attempt path u f (.ok ()) g → ∃ d, read g path = .ok d ∧
    ∀ name, d.find? name =
      (u.data.find? name).or (if name ∈ u.delete then none else (account log).find? name)
  /-- The writer's reports are such attempts. -/
  attempt : ∀ refusal u, Attempt path u f (telemetry refusal f path u.data u.delete).1
    (telemetry refusal f path u.data u.delete).2

/-! ## The writer -/

theorem attempt_telemetry (refusal : Refusal) (f : Files) (path : Path) (u : Update) :
    Attempt path u f (telemetry refusal f path u.data u.delete).1
      (telemetry refusal f path u.data u.delete).2 := by
  unfold telemetry
  split
  · exact .unread _
  · rename_i d hread
    unfold write
    split
    · rename_i hdirectories
      rw [take_error hdirectories]
      exact .undrafted _ List.nil_prefix rfl
    · rename_i f₁ hdirectories
      have hmade := take_ok hdirectories
      split
      · rename_i hdraft
        rw [take_error hdraft]
        exact .undrafted _ (List.prefix_refl _) hmade
      · rename_i f₂ hwritten
        have hdraft := take_ok hwritten
        cases hmove : Step.move.take refusal f₂ (·.rename (draftPath path) path) with
        | mk outcome g =>
            cases outcome with
            | error e =>
                rw [take_error hmove]
                exact .unmoved e hread hmade hdraft
            | ok _ => exact .stored hread hmade hdraft (take_ok hmove)

/-! ## One report -/

/-- There is no file yet, or one with the document. -/
inductive Stands (path : Path) (f : Files) : Document → Prop
  | none (h : f.Vacant path) : Stands path f Table.empty
  | some {d : Document} (h : Holds f path d) : Stands path f d

variable {path : Path} {f g : Files} {d : Document} {u : Update}

theorem Stands.read (h : Stands path f d) : read f path = .ok d := by
  cases h with
  | none h => rw [StatusFile.read, h.read]
  | some h => exact h.read

theorem ne_nil_of_vacant (h : f.Vacant path) : path ≠ [] :=
  Files.ne_nil_of_node? fun hroot => nomatch h.free.symm.trans hroot

theorem vacant_of_attempt {e : ServerError} (h : f.Vacant path)
    (hg : Attempt path u f (.error e) g) : g.Vacant path := by
  have hpath := ne_nil_of_vacant h
  have hshort := Files.length_dropLast_lt hpath
  have hne := (draftPath_ne hpath).symm
  have hlength := (draftPath_spec hpath).2.2.ge
  cases hg with
  | unread => exact h
  | undrafted _ hp hmade => exact h.createDirectories (hp.length_le.trans_lt hshort) hmade
  | unfinished _ _ hmade hdraft => exact (h.createDirectories hshort hmade).put hne hlength hdraft
  | unmoved _ _ hmade hdraft => exact (h.createDirectories hshort hmade).put hne hlength hdraft

theorem read_of_attempt {e : ServerError} {text : String} (h : f.read path = .ok text)
    (hg : Attempt path u f (.error e) g) : g.read path = .ok text := by
  obtain ⟨hpath, hdirectory⟩ := Files.look_dropLast_of_read h
  have hne := (draftPath_ne hpath).symm
  have hlength := (draftPath_spec hpath).2.2.ge
  have hthere {p : Path} {g : Files} (hp : p <+: path.dropLast)
      (hmade : f.createDirectories p = .ok g) : g = f := by
    rw [Files.createDirectories_of_look (Files.look_of_prefix hdirectory hp)] at hmade
    exact (Except.ok.inj hmade).symm
  cases hg with
  | unread => exact h
  | undrafted _ hp hmade =>
      rw [hthere hp hmade]
      exact h
  | unfinished _ _ hmade hdraft =>
      rw [Files.read_put_of_ne hne hlength hdraft, hthere (List.prefix_refl _) hmade]
      exact h
  | unmoved _ _ hmade hdraft =>
      rw [Files.read_put_of_ne hne hlength hdraft, hthere (List.prefix_refl _) hmade]
      exact h

theorem Stands.of_error {e : ServerError} (h : Stands path f d)
    (hg : Attempt path u f (.error e) g) : Stands path g d ∧ g.read path = f.read path := by
  cases h with
  | none h =>
      have hvacant := vacant_of_attempt h hg
      exact ⟨.none hvacant, hvacant.read.trans h.read.symm⟩
  | some h =>
      obtain ⟨text, htext, hd⟩ := h
      have hread := read_of_attempt htext hg
      exact ⟨.some ⟨text, hread, hd⟩, hread.trans htext.symm⟩

theorem isWhole_apply (h : (ofDocument d).IsWhole) (hu : (ofDocument u.data).IsWhole) :
    (ofDocument (Document.apply d u.data u.delete)).IsWhole :=
  isWhole_ofDocument_iff.mpr fun m hm => (mem_apply hm).elim
    (isWhole_ofDocument_iff.mp hu m) (isWhole_ofDocument_iff.mp h m)

theorem Stands.of_ok (h : Stands path f d) (hd : (ofDocument d).IsWhole) (hu : u.Fits)
    (hg : Attempt path u f (.ok ()) g) :
    Stands path g (Document.apply d u.data u.delete) := by
  cases hg with
  | stored hread hmade hdraft hmove =>
      obtain rfl := Except.ok.inj (hread.symm.trans h.read)
      have hdepth := (fits_read hread).1
      exact .some ⟨_, Files.read_rename (Files.read_write hdraft) hmove,
        document_of_isWhole (isWhole_apply hd hu.whole) ((depth_apply_le_iff hdepth).mpr hu.depth)⟩

/-! ## Any number of reports -/

theorem Stands.of_attempts {log : List (Update × Except ServerError Unit)}
    (h : Stands path f d) (hd : (ofDocument d).IsWhole) (hfits : ∀ r ∈ log, r.1.Fits)
    (hlog : Attempts path f log g) :
    Stands path g (log.foldl follow d) ∧ (ofDocument (log.foldl follow d)).IsWhole := by
  induction hlog generalizing d with
  | nil => exact ⟨h, hd⟩
  | @cons u outcome _ _ _ log hfirst _ ih =>
      obtain ⟨hu, hrest⟩ := List.forall_mem_cons.mp hfits
      cases outcome with
      | error e => exact ih (h.of_error hfirst).1 hd hrest
      | ok _ => exact ih (h.of_ok hd hu hfirst) (isWhole_apply hd hu.whole) hrest

/-- Without a file to begin with, the reports that were stored are all that is read. -/
theorem accounts_of_attempts {log : List (Update × Except ServerError Unit)} (hrooted : f.Rooted)
    (hnone : f.read path = .error .notFound) (hfits : ∀ r ∈ log, r.1.Fits)
    (hlog : Attempts path f log g) : Accounts path log g := by
  have hstart : Stands path f Table.empty := .none (hrooted.vacant hnone)
  obtain ⟨hstands, hwhole⟩ := hstart.of_attempts ⟨List.Pairwise.nil, trivial⟩ hfits hlog
  refine ⟨hstands.read, fun hg => (hstands.of_error hg).2, fun hu hg => ?_,
    fun refusal u => attempt_telemetry refusal g path u⟩
  exact ⟨_, (hstands.of_ok hwhole hu hg).read, Document.find?_apply _ _ _⟩

def twoValues : Update := ⟨Table.ofList [("hostname", .str "edge"), ("uptime", .int 3)], []⟩

def oneValue : Update := ⟨Table.ofList [("uptime", .arr [.int 4])], ["uptime"]⟩

/-- A draft of the first report is left unfinished, the second report is stored. -/
theorem accounts_of_attempts_unfinished : ∃ g : Files,
    Files.empty.Rooted ∧ Files.empty.read ["status.json"] = .error .notFound ∧
    Attempts ["status.json"] .empty
      [(twoValues, .error (.storage .notText)), (oneValue, .ok ())] g ∧
    read g ["status.json"] = .ok (Table.ofList [("uptime", .arr [.int 4])]) := by
  have hrooted : Files.empty.Rooted := by
    intro p name h
    exact absurd (by simp [Files.node?, Files.empty]) h
  obtain ⟨f, hf⟩ : ∃ f : Files, f = Files.empty.replace (draftPath ["status.json"])
      (.file none) := ⟨_, rfl⟩
  have hleft : Files.empty.put (draftPath ["status.json"]) none = .ok f :=
    Files.put_eq_ok_iff.mpr ⟨rfl, by decide, hf⟩
  have hready : Ready ["status.json"] f := by
    subst hf
    exact ⟨⟨Table.empty, by rfl⟩, rfl, by decide, by decide⟩
  obtain ⟨g, hg⟩ := hready.telemetry oneValue.data oneValue.delete
  have hstored : Attempt ["status.json"] oneValue f (.ok ()) g := by
    have hattempt := attempt_telemetry .never f ["status.json"] oneValue
    rwa [hg] at hattempt
  have hlog : Attempts ["status.json"] .empty
      [(twoValues, .error (.storage .notText)), (oneValue, .ok ())] g :=
    .cons (.unfinished _ none rfl hleft) (.cons hstored (.nil g))
  refine ⟨g, hrooted, rfl, hlog, (accounts_of_attempts hrooted rfl (fun r hr => ?_) hlog).document⟩
  rcases List.mem_cons.mp hr with rfl | hr
  · exact ⟨by decide, by decide⟩
  · obtain rfl := List.mem_singleton.mp hr
    exact ⟨by decide, by decide⟩

end EdgeAgent.StatusFile
