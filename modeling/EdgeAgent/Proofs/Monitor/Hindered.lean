import EdgeAgent.Proofs.Monitor.Fragments
import EdgeAgent.Proofs.Monitor.Passes

/-! # Passes that find nothing out

What a built-in monitor asks for may be refused, or cannot be read. Then its pass fails and
changes nothing, however much of the rest it has got. A pass that succeeds publishes what it
has found out, and those of the two monitors that ask about the cluster also tell the rest
of the edge which node this is.
-/

namespace EdgeAgent

/-! ## Failures -/

def Fails {ε α : Type} (x : Except ε α) : Prop := ∃ e, x = .error e

section
variable {ε α β : Type}

@[simp] theorem fails_error (e : ε) : Fails (.error e : Except ε α) := ⟨e, rfl⟩

@[simp] theorem not_fails_ok (a : α) : ¬Fails (.ok a : Except ε α) := by
  rintro ⟨e, h⟩
  cases h

theorem fails_bind_iff {x : Except ε α} {f : α → Except ε β} :
    Fails (x >>= f) ↔ Fails x ∨ ∃ a, x = .ok a ∧ Fails (f a) := by
  cases x with
  | error e => simp [bind, Except.bind]
  | ok a => simp [bind, Except.bind]

@[simp] theorem fails_map_iff {x : Except ε α} {f : α → β} : Fails (f <$> x) ↔ Fails x := by
  cases x with
  | error e => simp [Functor.map, Except.map]
  | ok a => simp [Functor.map, Except.map]

@[simp] theorem fails_orFail_iff {r : Reply α} : Fails r.orFail ↔ Fails r := by
  cases r with
  | error e => simp [Reply.orFail, Except.mapError]
  | ok a => simp [Reply.orFail, Except.mapError]

theorem orFail_eq_ok_iff {r : Reply α} {a : α} : r.orFail = .ok a ↔ r = .ok a := by
  refine ⟨Builtin.orFail_eq_ok, ?_⟩
  rintro rfl
  rfl

end

/-- A node is known only together with its orchestrator. -/
def EdgeStatus.Whole (e : EdgeStatus) : Prop :=
  e.nodeId.isSome = true → e.orchestrator.isSome = true

/-- The node is one of the managers of its cluster. -/
def Engine.NodeManages (e : Engine) : Prop :=
  ∃ id managers, e.nodeId = some id ∧ e.managers = .ok managers ∧ id ∈ managers

namespace Builtin

/-! ## What keeps a pass from succeeding -/

/-- Something keeps a monitor from finding out what it is to know. -/
def Hindered (w : World) : Builtin → Prop
  | .engineResources .. => Fails w.engine.managers ∨ Fails w.engine.nodes
  | .containers _ =>
    -- The nodes are asked for on a manager only.
    Fails w.engine.metrics ∨ Fails w.engine.managers ∨
      w.engine.NodeManages ∧ Fails w.engine.nodes
  | .temperature _ =>
    w.files.exists? (Temperatures.folder w.hostRoot) = true ∧
      Fails (w.files.list (Temperatures.folder w.hostRoot))
  | .vulnerability _ =>
    (∃ e, e ≠ .notFound ∧ w.files.read (Vulnerabilities.file w.sharedRoot) = .error e) ∨
      ∃ s, w.files.read (Vulnerabilities.file w.sharedRoot) = .ok s ∧
        Text.isBlankText s = false ∧ Fails (Json.parseItems s)
  | .deployment _ | .load _ | .power _ | .network _ => False

theorem fails_engineResources_iff {e : Engine} :
    Fails (EngineResources.read e) ↔ Fails e.managers ∨ Fails e.nodes := by
  unfold EngineResources.read
  rw [fails_bind_iff, fails_orFail_iff]
  cases e.managers with
  | error error => simp
  | ok managers => simp [orFail_eq_ok_iff]

theorem fails_containerUsage_iff {e : Engine} :
    Fails (ContainerUsage.read e) ↔
      Fails e.metrics ∨ Fails e.managers ∨ e.NodeManages ∧ Fails e.nodes := by
  unfold ContainerUsage.read Engine.NodeManages
  rw [fails_bind_iff, fails_orFail_iff]
  cases e.metrics with
  | error error => simp
  | ok containers =>
      cases e.managers with
      | error error => simp [fails_bind_iff, orFail_eq_ok_iff]
      | ok managers =>
          cases e.nodeId with
          | none => simp [fails_bind_iff, orFail_eq_ok_iff]
          | some id =>
              by_cases hmanager : id ∈ managers
              · simp [hmanager, fails_bind_iff, orFail_eq_ok_iff]
              · simp [hmanager, fails_bind_iff, orFail_eq_ok_iff]

theorem fails_temperatures_iff {t : Temperatures} {w : World} :
    Fails (t.update w) ↔ w.files.exists? (Temperatures.folder w.hostRoot) = true ∧
      Fails (w.files.list (Temperatures.folder w.hostRoot)) := by
  unfold Temperatures.update Temperatures.readZones
  split
  case isTrue hfolder =>
      cases w.files.list (Temperatures.folder w.hostRoot) with
      | error e => simp [hfolder, bind, Except.bind]
      | ok names => simp [bind, Except.bind, pure, Except.pure]
  case isFalse hfolder => simp [hfolder]

theorem fails_vulnerabilities_iff {v : Vulnerabilities} {w : World} :
    Fails (v.update w) ↔ Hindered w (.vulnerability v) := by
  unfold Vulnerabilities.update Hindered
  cases w.files.read (Vulnerabilities.file w.sharedRoot) with
  | error e => cases e <;> simp
  | ok s =>
      cases hblank : Text.isBlankText s with
      | true => simp [hblank]
      | false =>
          cases hitems : Json.parseItems s with
          | error m => simp [hblank, hitems]
          | ok items =>
              cases hreport : VulnerabilityReport.ofItems items <;>
                simp [hblank, hitems, hreport]

/-- A pass fails exactly if something hinders the monitor. -/
theorem fails_pass_iff (m : Builtin) (w : World) : Fails (m.pass w) ↔ m.Hindered w := by
  unfold pass
  cases m with
  | deployment _ | load _ | power _ | network _ => simp [Hindered]
  | engineResources supported _ =>
      simp [Hindered, fails_bind_iff, fails_engineResources_iff, pure, Except.pure]
  | containers _ =>
      simp [Hindered, fails_bind_iff, fails_containerUsage_iff, pure, Except.pure]
  | temperature t => simp [Hindered, fails_temperatures_iff]
  | vulnerability v => simp [fails_vulnerabilities_iff]

/-! ## What is told the rest of the edge -/

def nodeId : Builtin → Option String
  | .engineResources _ r => r.nodeId
  | .containers u => u.nodeId
  | _ => none

/-- What the rest of the edge learns from a pass. -/
structure Shares (m : Builtin) (w : World) (m' : Builtin) (w' : World) : Prop where
  rest : w' = { w with edge := w'.edge }
  cluster : m.asksCluster = true → w'.edge.nodeId = m'.nodeId ∧ w'.edge.Whole
  others : m.asksCluster = false → w'.edge = w.edge

theorem pass_shares {m m' : Builtin} {w w' : World} (h : m.pass w = .ok (m', w')) :
    m.Shares w m' w' := by
  cases m with
  | deployment _ | load _ | power _ | network _ =>
      cases h
      exact ⟨rfl, by simp [asksCluster], fun _ => rfl⟩
  | temperature _ | vulnerability _ =>
      obtain ⟨_, _, h⟩ := bind_eq_ok h
      cases h
      exact ⟨rfl, by simp [asksCluster], fun _ => rfl⟩
  | engineResources supported _ =>
      obtain ⟨r, _, h⟩ := bind_eq_ok h
      cases h
      exact ⟨rfl, fun _ => ⟨rfl, fun _ => rfl⟩, by simp [asksCluster]⟩
  | containers _ =>
      obtain ⟨u, hread, h⟩ := bind_eq_ok h
      cases h
      have hwhole : u.edge.Whole := by
        intro hnode
        change u.orchestrator.isSome = true
        rw [(containerUsage_read hread).1, Option.isSome_map]
        exact hnode
      exact ⟨rfl, fun _ => ⟨rfl, hwhole⟩, by simp [asksCluster]⟩

theorem Shares.whole {m m' : Builtin} {w w' : World} (h : m.Shares w m' w')
    (hw : w.edge.Whole) : w'.edge.Whole := by
  cases hcluster : m.asksCluster with
  | true => exact (h.cluster hcluster).2
  | false => rwa [h.others hcluster]

end Builtin

namespace Station

/-- A pass that has begun is one of a built-in monitor. -/
def Genuine (s : Station Builtin) : Prop :=
  ∀ p, s.underWay = some p → ∃ (m : Builtin) (now : Nat) (w : World),
    p.course = (Monitor.update m now w).1

theorem genuine_of_free {s : Station Builtin} (h : s.underWay = none) : s.Genuine := by
  intro p hp
  rw [h] at hp
  cases hp

theorem Genuine.of_underWay {s t : Station Builtin} (h : s.Genuine)
    (hsame : t.underWay = s.underWay) : t.Genuine := by
  intro p hp
  exact h p (hsame ▸ hp)

/-- What is left of a pass of a built-in monitor. -/
inductive Trace (s : Station Builtin) (w : World) :
    Option (Verdict Builtin) → Station Builtin → World → Prop
  /-- No pass ends. -/
  | idle {t : Station Builtin} : s.Untouched t → Trace s w none t w
  | fail {t : Station Builtin} : s.monitor.Hindered w → s.Untouched t →
      Trace s w (some .failed) t w
  | publish {m : Builtin} {t : Station Builtin} {w' : World} : s.monitor.pass w = .ok (m, w') →
      t.monitor = m → t.fragment = {} → t.slot = ⟨some (m.populate s.fragment)⟩ →
        Trace s w (some (.published m (m.populate s.fragment))) t w'

variable {s t u : Station Builtin} {now : Nat} {w w' : World} {v : Option (Verdict Builtin)}

theorem Untouched.trace (h : s.Untouched u) (htrace : Trace u w v t w') : Trace s w v t w' := by
  cases htrace with
  | idle hsame => exact .idle (h.trans hsame)
  | fail hhindered hsame => exact .fail (h.monitor ▸ hhindered) (h.trans hsame)
  | publish hpass hmonitor hfragment hslot =>
      rw [h.fragment] at hslot ⊢
      exact .publish (h.monitor ▸ hpass) hmonitor hfragment hslot

theorem finish_update (m : Builtin) (now : Nat) (w : World) :
    (Monitor.update m now w).1.finish = fun m w => match m.pass w with
      | .ok (m, w) => (.done, m, w)
      | .error e => (.failed e, m, w) := rfl

theorem Ends.trace {p : Pass Builtin} {v : Verdict Builtin}
    (hcourse : ∃ (m : Builtin) (now : Nat) (w : World), p.course = (Monitor.update m now w).1)
    (h : Ends s p now w v t w') : Trace s w (some v) t w' := by
  obtain ⟨m, begun, before, hcourse⟩ := hcourse
  have hleaves := h.leaves
  have hfinish : p.course.finish = (Monitor.update m begun before).1.finish := by rw [hcourse]
  rw [finish_update] at hfinish
  cases h with
  | publish hdone hwrite =>
      rw [hfinish] at hdone
      cases hpass : s.monitor.pass w with
      | error e => simp [hpass] at hdone
      | ok found =>
          simp only [hpass] at hdone
          cases hdone
          cases hwrite
          exact .publish hpass rfl rfl rfl
  | breakOff hdone hwrite => cases hwrite
  | fail hfailed =>
      rw [hfinish] at hfailed
      cases hpass : s.monitor.pass w with
      | error e =>
          have hhindered := (Builtin.fails_pass_iff s.monitor w).mp ⟨e, hpass⟩
          simp only [hpass] at hfailed
          cases hfailed
          exact .fail hhindered ⟨rfl, rfl, rfl⟩
      | ok found => simp [hpass] at hfailed
  | crash w'' hcrashed =>
      rw [hfinish] at hcrashed
      cases hpass : s.monitor.pass w <;> simp [hpass] at hcrashed

theorem Served.trace (hs : s.Genuine) (h : Served now s w v t w') :
    t.Genuine ∧ Trace s w v t w' := by
  cases h with
  | nobody => exact ⟨hs, .idle ⟨rfl, rfl, rfl⟩⟩
  | begin hfree hwaiting hcourse =>
      refine ⟨?_, .idle ⟨rfl, rfl, rfl⟩⟩
      rintro _ ⟨⟩
      exact ⟨s.monitor, now, w, hcourse⟩
  | finish hpass hends => exact ⟨genuine_of_free hends.freed.underWay, hends.trace (hs _ hpass)⟩
  | @whole p waiting v t w' hfree hwaiting hcourse hends =>
      have hsame : s.Untouched { s with waiting, underWay := some p } := ⟨rfl, rfl, rfl⟩
      have htrace := hends.trace ⟨s.monitor, now, w, hcourse⟩
      exact ⟨genuine_of_free hends.freed.underWay, hsame.trace htrace⟩

/-- In one operation a pass of a built-in monitor fails without a trace, or it publishes what
it has found out, or none ends. -/
theorem Acts.trace (hs : s.Genuine) (h : Acts now s w v t w') : t.Genuine ∧ Trace s w v t w' := by
  rcases h.served with ⟨rfl, hsame, hpass, rfl⟩ | ⟨u, hsame, hpass, hserved⟩
  · exact ⟨hs.of_underWay hpass, .idle hsame⟩
  · obtain ⟨ht, htrace⟩ := hserved.trace (hs.of_underWay hpass)
    exact ⟨ht, hsame.trace htrace⟩

end Station
end EdgeAgent
