import EdgeAgent.Monitor.Builtin
import EdgeAgent.Proofs.Payload.Merge
import Mathlib.Data.List.Nodup

/-! # The fragments of the monitors

Every monitor has attributes of its own and, where it tells of resources, sections of
its own. Only the two monitors that ask the engine about the cluster share some: as
long as the engine gives both the same answers, they say the same. So it does not
matter in which order the fragments are merged, and nothing of them is lost.
-/

namespace EdgeAgent

namespace Builtin

/-- The attributes, apart from the resources, that a monitor may write. -/
def attributes : Builtin → List Attribute
  | .deployment _ => [.engineVersion, .operatingSystem, .architecture, .hostname, .lastBoot,
      .containerPlugins, .components]
  | .load _ | .power _ => []
  | .engineResources .. => [.orchestrator, .nodeId, .clusterId, .clusterManagers, .clusterNodes,
      .coeResources]
  | .containers _ => [.dockerVersion, .kubeletVersion, .nodeId, .orchestrator, .clusterNodeRole,
      .clusterId, .clusterManagers, .clusterNodes]
  | .network _ => [.network, .ip]
  | .temperature _ => [.temperatures]
  | .vulnerability _ => [.vulnerabilities]

/-- The sections of the resources that a monitor may write. -/
def sections : Builtin → List String
  | .load _ => ["disks", "cpu", "ram"]
  | .power _ => ["power-consumption"]
  | .containers _ => ["container-stats"]
  | .network _ => ["net-stats"]
  | .deployment _ | .engineResources .. | .temperature _ | .vulnerability _ => []

/-- A monitor that asks the engine about the cluster. -/
def asksCluster : Builtin → Bool
  | .engineResources .. | .containers _ => true
  | _ => false

/-- What a monitor writes when nothing has been written yet. -/
def fragment (m : Builtin) : Payload := m.populate {}

/-- Apart from the two that ask about the cluster, monitors share no attribute. -/
theorem notMem_attributes {m n : Builtin} (hname : m.name ≠ n.name)
    (hcluster : m.asksCluster = false ∨ n.asksCluster = false) :
    ∀ a ∈ m.attributes, a ∉ n.attributes := by
  cases m <;> cases n <;> simp_all [name, asksCluster, attributes]

theorem notMem_sections {m n : Builtin} (hname : m.name ≠ n.name) :
    ∀ s ∈ m.sections, s ∉ n.sections := by
  cases m <;> cases n <;> simp_all [name, sections]

/-! ## What a fragment says -/

theorem within_fragment (m : Builtin) : m.fragment.Within m.attributes m.sections := by
  cases m with
  | deployment d =>
      change (d.populate {}).Within _ _
      unfold Deployment.populate
      repeat' refine Payload.Within.set ?_ (by simp [attributes]) (by simp) _
      exact Payload.within_empty
  | load l =>
      change (l.populate {}).Within _ _
      unfold Load.populate
      split
      · exact Payload.within_empty
      · refine Payload.within_empty.putSections ?_
        unfold Load.sections
        cases l.host with
        | none => simp
        | some h =>
            dsimp only
            split <;> simp [sections]
  | engineResources supported r =>
      change (r.populate {}).Within _ _
      unfold EngineResources.populate
      split
      all_goals repeat' refine Payload.Within.set ?_ (by simp [attributes]) (by simp) _
      all_goals exact Payload.within_empty
  | power r =>
      change (r.populate {}).Within _ _
      unfold PowerReadings.populate
      split
      · exact Payload.within_empty
      · exact Payload.within_empty.putSections (by simp [sections])
  | containers u =>
      change (u.populate {}).Within _ _
      unfold ContainerUsage.populate
      iterate 8 refine Payload.Within.set ?_ (by simp [attributes]) (by simp) _
      exact Payload.within_empty.putSections (by simp [sections])
  | network r =>
      change (r.populate {}).Within _ _
      unfold NetworkReport.populate
      extract_lets network
      split
      · repeat' refine Payload.Within.set ?_ (by simp [attributes]) (by simp) _
        exact Payload.within_empty
      · refine Payload.Within.putSections ?_ (by simp [sections])
        repeat' refine Payload.Within.set ?_ (by simp [attributes]) (by simp) _
        exact Payload.within_empty
  | temperature t =>
      change (t.populate {}).Within _ _
      unfold Temperatures.populate
      split
      · exact Payload.within_empty
      · exact Payload.within_empty.set (by simp [attributes]) (by simp) _
  | vulnerability v =>
      change (v.populate {}).Within _ _
      unfold Vulnerabilities.populate
      split
      · exact Payload.within_empty.set (by simp [attributes]) (by simp) _
      · exact Payload.within_empty

/-! ## The two monitors of the cluster -/

theorem orFail_eq_ok {α : Type} {r : Reply α} {x : α} (h : r.orFail = .ok x) : r = .ok x := by
  cases r with
  | ok y => cases h; rfl
  | error e => cases h

theorem bind_eq_ok {ε α β : Type} {x : Except ε α} {f : α → Except ε β} {b : β}
    (h : x >>= f = .ok b) : ∃ a, x = .ok a ∧ f a = .ok b := by
  cases x with
  | ok a => exact ⟨a, rfl, h⟩
  | error e => cases h

theorem engineResources_read {e : Engine} {r : EngineResources}
    (h : EngineResources.read e = .ok r) :
    r.orchestrator = e.orchestrator ∧ r.nodeId = e.nodeId ∧ r.clusterId = e.clusterId ∧
      e.managers = .ok r.managers ∧ e.nodes = .ok r.nodes := by
  obtain ⟨managers, hmanagers, h⟩ := bind_eq_ok h
  obtain ⟨nodes, hnodes, h⟩ := bind_eq_ok h
  cases h
  exact ⟨rfl, rfl, rfl, orFail_eq_ok hmanagers, orFail_eq_ok hnodes⟩

theorem containerUsage_read {e : Engine} {u : ContainerUsage}
    (h : ContainerUsage.read e = .ok u) :
    u.orchestrator = (u.nodeId.map fun _ => e.orchestrator) ∧ u.nodeId = e.nodeId ∧
      u.clusterId = e.clusterId ∧ e.managers = .ok u.managers ∧
      (u.nodes = [] ∨ e.nodes = .ok u.nodes) := by
  obtain ⟨containers, _, h⟩ := bind_eq_ok h
  obtain ⟨managers, hmanagers, h⟩ := bind_eq_ok h
  extract_lets isManager usage at h
  split at h
  all_goals
    obtain ⟨nodes, hnodes, h⟩ := bind_eq_ok h
    cases h
  · exact ⟨rfl, rfl, rfl, orFail_eq_ok hmanagers, .inr (orFail_eq_ok hnodes)⟩
  · exact ⟨rfl, rfl, rfl, orFail_eq_ok hmanagers, .inl (Except.ok.inj hnodes).symm⟩

theorem value_engineResources (supported : Bool) (r : EngineResources) :
    let p := (engineResources supported r).fragment
    p.value .orchestrator = some r.orchestrator ∧ p.value .nodeId = r.nodeId ∧
      p.value .clusterId = r.clusterId ∧ p.value .clusterManagers = nonEmpty? r.managers ∧
      p.value .clusterNodes = nonEmpty? r.nodes := by
  dsimp only [fragment, populate]
  unfold EngineResources.populate
  cases r.raw.isEmpty <;> exact ⟨rfl, rfl, rfl, rfl, rfl⟩

/-- Both monitors of the cluster write these. -/
def clusterAttributes : List Attribute :=
  [.orchestrator, .nodeId, .clusterId, .clusterManagers, .clusterNodes]

theorem mem_clusterAttributes {a : Attribute} {supported : Bool} {r : EngineResources}
    {u : ContainerUsage} (hr : a ∈ (engineResources supported r).attributes)
    (hu : a ∈ (containers u).attributes) : a ∈ clusterAttributes := by
  cases a <;> simp_all [attributes, clusterAttributes]

theorem nonEmpty?_eq_some {α : Type} {xs ys : List α} (h : nonEmpty? xs = some ys) :
    xs = ys ∧ xs ≠ [] := by
  unfold nonEmpty? at h
  cases xs with
  | nil => simp at h
  | cons x xs => exact ⟨Option.some.inj h, by simp⟩

/-- Where the two monitors of the cluster have got the same answers, they say the
same. -/
theorem consistent_cluster {e : Engine} {supported : Bool} {r : EngineResources}
    {u : ContainerUsage} (hr : EngineResources.read e = .ok r)
    (hu : ContainerUsage.read e = .ok u) :
    (engineResources supported r).fragment.Consistent (containers u).fragment := by
  obtain ⟨horchestrator, hnodeId, hclusterId, hmanagers, hnodes⟩ := engineResources_read hr
  obtain ⟨uorchestrator, unodeId, uclusterId, umanagers, unodes⟩ := containerUsage_read hu
  obtain ⟨porchestrator, pnodeId, pclusterId, pmanagers, pnodes⟩ :=
    value_engineResources supported r
  have hwithin := within_fragment (engineResources supported r)
  have uwithin := within_fragment (containers u)
  refine ⟨?_, ?_⟩
  · intro a ha x y hx hy
    by_cases hr : a ∈ (engineResources supported r).attributes
    · by_cases hu : a ∈ (containers u).attributes
      · have hshared := mem_clusterAttributes hr hu
        simp only [clusterAttributes, List.mem_cons, List.not_mem_nil, or_false] at hshared
        obtain rfl | rfl | rfl | rfl | rfl := hshared
        · have hx : r.orchestrator = x := Option.some.inj (porchestrator.symm.trans hx)
          obtain ⟨_, _, rfl⟩ := Option.map_eq_some_iff.mp (uorchestrator.symm.trans hy)
          exact hx.symm.trans horchestrator
        · have hx : r.nodeId = some x := pnodeId.symm.trans hx
          exact Option.some.inj (hx.symm.trans (hnodeId.trans (unodeId.symm.trans hy)))
        · have hx : r.clusterId = some x := pclusterId.symm.trans hx
          exact Option.some.inj (hx.symm.trans (hclusterId.trans (uclusterId.symm.trans hy)))
        · have hy : nonEmpty? u.managers = some y := hy
          obtain ⟨rfl, _⟩ := nonEmpty?_eq_some (pmanagers.symm.trans hx)
          obtain ⟨rfl, _⟩ := nonEmpty?_eq_some hy
          exact Except.ok.inj (hmanagers.symm.trans umanagers)
        · have hy : nonEmpty? u.nodes = some y := hy
          obtain ⟨rfl, _⟩ := nonEmpty?_eq_some (pnodes.symm.trans hx)
          obtain ⟨rfl, hsome⟩ := nonEmpty?_eq_some hy
          exact Except.ok.inj (hnodes.symm.trans (unodes.resolve_left hsome))
      · simp [uwithin.values a ha hu] at hy
    · simp [hwithin.values a ha hr] at hx
  · intro name x y hx
    simp [hwithin.section?_of_notMem (List.not_mem_nil)] at hx

/-! ## Successful passes -/

/-- A successful pass of a monitor, whatever the monitor knew before. -/
structure Success where
  before : Builtin
  surroundings : World
  monitor : Builtin
  later : World
  succeeds : before.pass surroundings = .ok (monitor, later)

namespace Success

def fragment (s : Success) : Payload := s.monitor.fragment

def asksCluster (s : Success) : Bool := s.monitor.asksCluster

theorem read_of_pass (s : Success) :
    (∀ supported r, s.monitor = engineResources supported r →
      EngineResources.read s.surroundings.engine = .ok r) ∧
    ∀ u, s.monitor = containers u → ContainerUsage.read s.surroundings.engine = .ok u := by
  obtain ⟨m, w, m', w', h⟩ := s
  dsimp only
  cases m with
  | deployment _ | load _ | power _ | network _ =>
      cases h
      exact ⟨nofun, nofun⟩
  | engineResources supported _ =>
      obtain ⟨r, hr, h⟩ := bind_eq_ok h
      cases h
      refine ⟨?_, nofun⟩
      rintro _ _ ⟨rfl, rfl⟩
      exact hr
  | containers _ =>
      obtain ⟨u, hu, h⟩ := bind_eq_ok h
      cases h
      refine ⟨nofun, ?_⟩
      rintro _ ⟨rfl⟩
      exact hu
  | temperature _ | vulnerability _ =>
      obtain ⟨_, _, h⟩ := bind_eq_ok h
      cases h
      exact ⟨nofun, nofun⟩

theorem consistent_of_name_ne {s t : Success} (hname : s.monitor.name ≠ t.monitor.name)
    (hengine : s.asksCluster → t.asksCluster → s.surroundings.engine = t.surroundings.engine) :
    s.fragment.Consistent t.fragment := by
  -- Two monitors say something of the same attribute only if both ask about the cluster.
  by_cases hboth : s.asksCluster ∧ t.asksCluster
  · have heq := hengine hboth.1 hboth.2
    obtain ⟨sresources, scontainers⟩ := s.read_of_pass
    obtain ⟨tresources, tcontainers⟩ := t.read_of_pass
    unfold fragment
    unfold asksCluster at hboth
    cases hs : s.monitor with
    | engineResources supported r =>
        cases ht : t.monitor with
        | containers u =>
            exact consistent_cluster (sresources supported r hs) (heq ▸ tcontainers u ht)
        | engineResources _ _ => simp [hs, ht, name] at hname
        | _ => simp [ht, Builtin.asksCluster] at hboth
    | containers u =>
        cases ht : t.monitor with
        | engineResources supported r =>
            exact (consistent_cluster (tresources supported r ht) (heq ▸ scontainers u hs)).symm
        | containers _ => simp [hs, ht, name] at hname
        | _ => simp [ht, Builtin.asksCluster] at hboth
    | _ => simp [hs, Builtin.asksCluster] at hboth
  · have hcluster : s.monitor.asksCluster = false ∨ t.monitor.asksCluster = false := by
      simpa only [asksCluster, not_and_or, Bool.not_eq_true] using hboth
    exact (within_fragment _).consistent (within_fragment _) (notMem_attributes hname hcluster)
      (notMem_sections hname)

/-- The cluster was asked about in one state of the engine only. -/
def SameAnswers (ss : List Success) : Prop :=
  ∀ s ∈ ss, ∀ t ∈ ss, s.asksCluster → t.asksCluster →
    s.surroundings.engine = t.surroundings.engine

theorem compatible {ss : List Success} (hnames : (ss.map (·.monitor.name)).Nodup)
    (hsame : SameAnswers ss) : Payload.Compatible (ss.map (·.fragment)) where
  sectioned p hp := by
    obtain ⟨s, _, rfl⟩ := List.mem_map.mp hp
    exact (within_fragment s.monitor).sectioned
  consistent p hp q hq := by
    obtain ⟨s, hs, rfl⟩ := List.mem_map.mp hp
    obtain ⟨t, ht, rfl⟩ := List.mem_map.mp hq
    by_cases hname : s.monitor.name = t.monitor.name
    · obtain rfl := List.inj_on_of_nodup_map hnames hs ht hname
      exact Payload.Consistent.refl _
    · exact consistent_of_name_ne hname (hsame s hs t ht)

/-- Fragments of different monitors make the same payload in whatever order they are
merged, and what one of them says of an attribute, or in a section of the resources,
is found there. The resources of each are nothing but sections. -/
theorem mergeAll_fragments {ss : List Success} (hnames : (ss.map (·.monitor.name)).Nodup)
    (hsame : SameAnswers ss) :
    (∀ ts : List Success, ts.Perm ss →
      Payload.mergeAll (ts.map (·.fragment)) = Payload.mergeAll (ss.map (·.fragment))) ∧
    ∀ s ∈ ss,
      s.fragment.Sectioned ∧
      (∀ a v, a ≠ .resources → s.fragment.value a = some v →
        (Payload.mergeAll (ss.map (·.fragment))).value a = some v) ∧
      ∀ name v, s.fragment.section? name = some v →
        (Payload.mergeAll (ss.map (·.fragment))).section? name = some v := by
  have hcompatible := compatible hnames hsame
  refine ⟨?_, ?_⟩
  · intro ts hperm
    exact (hcompatible.mergeAll_perm (hperm.symm.map _)).symm
  · intro s hs
    have hmem : s.fragment ∈ ss.map (·.fragment) := List.mem_map_of_mem hs
    exact ⟨hcompatible.sectioned _ hmem, fun a v ha hv => hcompatible.value_mergeAll hmem ha hv,
      fun name v hv => hcompatible.section?_mergeAll hmem hv⟩

def soleManager : World :=
  { engine := { nodeId := some "n", managers := .ok ["n"], nodes := .ok ["n"] } }

def listing : Success where
  before := .engineResources true {}
  surroundings := soleManager
  monitor := .engineResources true
    { orchestrator := "docker", nodeId := some "n", managers := ["n"], nodes := ["n"] }
  later := { soleManager with edge := ⟨some "n", some "docker"⟩ }
  succeeds := rfl

def counting : Success where
  before := .containers {}
  surroundings := soleManager
  monitor := .containers
    { nodeId := some "n", orchestrator := some "docker", role := some "manager", managers := ["n"],
      nodes := ["n"] }
  later := { soleManager with edge := ⟨some "n", some "docker"⟩ }
  succeeds := rfl

theorem mergeAll_fragments_soleManager :
    ([listing, counting].map (·.monitor.name)).Nodup ∧ SameAnswers [listing, counting] ∧
      Payload.mergeAll [counting.fragment, listing.fragment] =
        Payload.mergeAll [listing.fragment, counting.fragment] := by
  have hnames : ([listing, counting].map (·.monitor.name)).Nodup := by decide
  have hsame : SameAnswers [listing, counting] := by
    intro s hs t ht _ _
    have hengine : ∀ s ∈ [listing, counting], s.surroundings.engine = soleManager.engine := by
      simp [listing, counting]
    rw [hengine s hs, hengine t ht]
  exact ⟨hnames, hsame,
    (mergeAll_fragments hnames hsame).1 [counting, listing] (List.Perm.swap _ _ _)⟩

end Success

end Builtin
end EdgeAgent
