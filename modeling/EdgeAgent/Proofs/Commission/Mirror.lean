import EdgeAgent.Proofs.Commission.Run
import EdgeAgent.Proofs.Files

/-! # The server mirrors the commissioned attributes

The accepted attributes exist three times: the commissioner remembers them, its
file holds them and the server has their document. Runs and restarts keep the
three together, whatever the engine and the server answer, as long as nobody else
touches the file and the file can be written.
-/

namespace EdgeAgent

namespace Files

/-- Whatever is to be put into the file, its directories can be made and it can be
written. -/
def Writable (f : Files) (file : Path) : Prop :=
  ∃ g, f.createDirectories file.dropLast = .ok g ∧ ∀ text, ∃ h, g.write file text = .ok h

end Files

/-- The document after a request: an accepted one is applied, any other is not. -/
def Remote.serve (s : Remote) (now : Nat) (d : Document) (r : Request) : Document :=
  match r with
  | .commission payload => if s.grants now r then d.commission payload else d
  | _ => d

namespace Commissioner

/-! ## The file -/

theorem load_congr {f g : Files} {file : Path} (h : f.read file = g.read file) :
    load f file = load g file := by
  rw [load, load, h]

theorem load_missing {f : Files} {file : Path} (h : f.exists? file = false) :
    load f file = {} := by
  have hread : ∃ e, f.read file = .error e := by
    unfold Files.exists? at h
    unfold Files.read
    cases hlook : f.look file with
    | ok n => simp [hlook] at h
    | error e => exact ⟨e, rfl⟩
  obtain ⟨e, he⟩ := hread
  rw [load, he]

theorem load_save {f : Files} {file : Path} (h : f.Writable file) (a : Attributes) :
    load (save f file a) file = a := by
  obtain ⟨g, hdirectories, hwrite⟩ := h
  obtain ⟨g', hg'⟩ := hwrite a.fileText
  have hsaved : save f file a = g' := by
    simp only [save, hdirectories, hg']
  rw [hsaved]
  simp only [load, Files.read_write hg', Attributes.parse_fileText]

end Commissioner

/-! ## Sites -/

/-- A commissioner and its file, and the server's part. -/
structure Site where
  commissioner : Commissioner
  files : Files
  document : Document := Table.empty
  /-- The attributes that the server accepted last. -/
  granted : Option Attributes := none

namespace Site

/-- A run; the answer tells whether anything was sent and accepted. -/
def run (s : Site) (now : Nat) (w : World) (server : Remote) (later : World) : Bool × Site :=
  let requests := s.commissioner.requests now w server
  let (answer, commissioner, left) := s.commissioner.run now w server later
  (answer,
    { commissioner
      files := left.files
      document := requests.foldl (server.serve now) s.document
      granted :=
        if requests.any (server.grants now) then some (s.commissioner.current w.engine w.edge)
        else s.granted })

/-- A new commissioner takes over, with the same file. -/
def restart (s : Site) (w : World) (uuid : Option String) : Site :=
  { s with
    commissioner := (Commissioner.new w uuid s.commissioner.file).1
    files := w.files }

/-- The sites that began without a file. The file is left alone by others, and can
be written whenever a request is accepted. -/
inductive Reachable : Site → Prop
  | fresh (w : World) (uuid : Option String) (file : Path) : w.files.exists? file = false →
      Reachable { commissioner := (Commissioner.new w uuid file).1, files := w.files }
  | run {s : Site} (now : Nat) (w : World) (server : Remote) (later : World) : Reachable s →
      later.files.read s.commissioner.file = s.files.read s.commissioner.file →
      ((s.commissioner.requests now w server).any (server.grants now) →
        later.files.Writable s.commissioner.file) →
      Reachable (s.run now w server later).2
  | restart {s : Site} (w : World) (uuid : Option String) : Reachable s →
      w.files.read s.commissioner.file = s.files.read s.commissioner.file →
      Reachable (s.restart w uuid)

/-- The copies of the accepted attributes agree. -/
structure InStep (s : Site) : Prop where
  document : s.document = s.commissioner.accepted.toDocument
  file : Commissioner.load s.files s.commissioner.file = s.commissioner.accepted
  granted : s.commissioner.accepted = s.granted.getD {}

theorem inStep_fresh (w : World) (uuid : Option String) {file : Path}
    (h : w.files.exists? file = false) :
    InStep { commissioner := (Commissioner.new w uuid file).1, files := w.files } := by
  have hload := Commissioner.load_missing h
  refine ⟨?_, rfl, hload⟩
  simp only [Commissioner.new, hload]
  rfl

theorem inStep_run {s : Site} (h : InStep s) (now : Nat) (w : World) (server : Remote)
    (later : World)
    (hkept : later.files.read s.commissioner.file = s.files.read s.commissioner.file)
    (hsaves : (s.commissioner.requests now w server).any (server.grants now) →
      later.files.Writable s.commissioner.file) : InStep (s.run now w server later).2 := by
  have hload : Commissioner.load later.files s.commissioner.file = s.commissioner.accepted :=
    (Commissioner.load_congr hkept).trans h.file
  cases hrequest : Attributes.request s.commissioner.accepted
      (s.commissioner.current w.engine w.edge) with
  | none =>
      have hsame := Attributes.request_eq_none_iff.mp hrequest
      obtain ⟨hnone, hrun⟩ := Commissioner.run_unchanged hsame now server later
      simp only [run, hnone, hrun]
      exact ⟨h.document, hload, h.granted⟩
  | some payload =>
      obtain ⟨hone, _, hcommissioner, hfiles⟩ :=
        Commissioner.run_changed hrequest now server later
      rw [hone] at hsaves
      simp only [run, hone, hcommissioner, hfiles]
      cases hgrants : server.grants now (.commission payload) with
      | true =>
          have hwritable := hsaves (by simp [hgrants])
          refine ⟨?_, ?_, ?_⟩
          · simp only [List.foldl_cons, List.foldl_nil, Remote.serve, hgrants, if_true]
            rw [h.document, Attributes.commission_request hrequest]
          · exact Commissioner.load_save hwritable _
          · simp [hgrants]
      | false =>
          refine ⟨?_, ?_, ?_⟩
          · simpa [Remote.serve, hgrants] using h.document
          · exact hload
          · simpa [hgrants] using h.granted

theorem inStep_restart {s : Site} (h : InStep s) (w : World) (uuid : Option String)
    (hkept : w.files.read s.commissioner.file = s.files.read s.commissioner.file) :
    InStep (s.restart w uuid) := by
  have hload : Commissioner.load w.files s.commissioner.file = s.commissioner.accepted :=
    (Commissioner.load_congr hkept).trans h.file
  refine ⟨?_, rfl, ?_⟩
  · simp only [restart, Commissioner.new, hload]
    exact h.document
  · simp only [restart, Commissioner.new, hload]
    exact h.granted

theorem Reachable.inStep {s : Site} (h : Reachable s) : InStep s := by
  induction h with
  | fresh w uuid file hmissing => exact inStep_fresh w uuid hmissing
  | run now w server later _ hkept hsaves ih => exact inStep_run ih now w server later hkept hsaves
  | restart w uuid _ hkept ih => exact inStep_restart ih w uuid hkept

/-- At any time the three copies agree, and the next run sends a request exactly when
something has changed, and reports exactly what the server accepts. -/
theorem copies_of_accepted_agree {s : Site} (h : Reachable s) :
    s.document = s.commissioner.accepted.toDocument ∧
      Commissioner.load s.files s.commissioner.file = s.commissioner.accepted ∧
      s.commissioner.accepted = s.granted.getD {} ∧
      ∀ now w server later,
        (s.commissioner.requests now w server ≠ [] ↔
          s.commissioner.current w.engine w.edge ≠ s.commissioner.accepted) ∧
        ((s.run now w server later).1 = true ↔
          ∃ r ∈ s.commissioner.requests now w server, server.grants now r) := by
  refine ⟨h.inStep.document, h.inStep.file, h.inStep.granted, ?_⟩
  intro now w server later
  cases hrequest : Attributes.request s.commissioner.accepted
      (s.commissioner.current w.engine w.edge) with
  | none =>
      have hsame := Attributes.request_eq_none_iff.mp hrequest
      obtain ⟨hnone, hrun⟩ := Commissioner.run_unchanged hsame now server later
      simp [run, hnone, hrun, hsame]
  | some payload =>
      have hdiffers : s.commissioner.current w.engine w.edge ≠ s.commissioner.accepted := by
        intro hsame
        simp [Attributes.request_eq_none_iff.mpr hsame] at hrequest
      obtain ⟨hone, hanswer, _⟩ := Commissioner.run_changed hrequest now server later
      simp [run, hone, hanswer, hdiffers]

/-! ## A restart -/

def managing : World where
  engine := { nodes := .ok ["a", "b"], managers := .ok ["a"] }
  edge := { nodeId := some "a" }

def restarted : Site :=
  let fresh : Site := {
    commissioner := (Commissioner.new {} none ["data", "commissioning"]).1
    files := {} }
  let commissioned := (fresh.run 0 managing {} {}).2
  commissioned.restart { files := commissioned.files } none

theorem reachable_restarted : Reachable restarted := by
  have hfresh : Reachable {
      commissioner := (Commissioner.new {} none ["data", "commissioning"]).1
      files := {} } := .fresh {} none _ rfl
  have hcommissioned := hfresh.run 0 managing {} {} rfl fun _ => ⟨_, rfl, fun _ => ⟨_, rfl⟩⟩
  exact hcommissioned.restart { files := _ } none rfl

theorem copies_of_accepted_agree_restarted :
    Reachable restarted ∧ restarted.commissioner.accepted.clusterWorkers = some ["b"] ∧
      restarted.document = restarted.commissioner.accepted.toDocument ∧
      Commissioner.load restarted.files restarted.commissioner.file =
        restarted.commissioner.accepted ∧
      restarted.commissioner.accepted = restarted.granted.getD {} ∧
      ∀ now w server later,
        (restarted.commissioner.requests now w server ≠ [] ↔
          restarted.commissioner.current w.engine w.edge ≠ restarted.commissioner.accepted) ∧
        ((restarted.run now w server later).1 = true ↔
          ∃ r ∈ restarted.commissioner.requests now w server, server.grants now r) :=
  ⟨reachable_restarted, by rw [reachable_restarted.inStep.granted]; rfl,
    copies_of_accepted_agree reachable_restarted⟩

end Site
end EdgeAgent
