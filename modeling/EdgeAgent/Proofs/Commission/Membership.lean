import EdgeAgent.Proofs.Commission.Cluster

/-! # The cluster that is commissioned

A run tells of a cluster all or nothing. It tells of one on a node that is known to manage
it, as long as the engine tells both its managers and its nodes.
-/

namespace EdgeAgent

/-! ## Managers and workers -/

/-- The workers are the nodes that manage nothing, as often and in the order as they are
listed. -/
structure Parts (nodes managers workers : List String) : Prop where
  listed : workers.Sublist nodes
  count : ∀ n, n ∉ managers → workers.count n = nodes.count n
  apart : ∀ n ∈ workers, n ∉ managers
  /-- Every node is in one of the lists, and in one only. -/
  either : ∀ n ∈ nodes, (n ∈ managers ↔ n ∉ workers)

theorem parts_filter (nodes managers : List String) :
    Parts nodes managers (nodes.filter fun n => !managers.contains n) where
  listed := List.filter_sublist
  count n hn := List.count_filter (by simpa using hn)
  apart n hn := by simpa using (List.mem_filter.mp hn).2
  either n hn := by simp [List.mem_filter, hn]

theorem Parts.unique {nodes managers workers : List String} (h : Parts nodes managers workers) :
    workers = nodes.filter fun n => !managers.contains n := by
  have hfilter := parts_filter nodes managers
  have hsublist : workers.Sublist (nodes.filter fun n => !managers.contains n) := by
    have hkept := h.listed.filter fun n => !managers.contains n
    rwa [List.filter_eq_self.mpr fun n hn => by simpa using h.apart n hn] at hkept
  refine hsublist.eq_of_length (List.Perm.length_eq (List.perm_iff_count.mpr fun n => ?_))
  by_cases hn : n ∈ managers
  · rw [List.count_eq_zero.mpr fun hmem => h.apart n hmem hn,
      List.count_eq_zero.mpr fun hmem => hfilter.apart n hmem hn]
  · rw [h.count n hn, hfilter.count n hn]

/-! ## What a run gathers -/

namespace Attributes

def TellsCluster (a : Attributes) : Prop :=
  a.clusterId.isSome ∧ a.clusterOrchestrator.isSome ∧ a.clusterManagers.isSome ∧
    a.clusterWorkers.isSome

end Attributes

namespace Commissioner

/-- The node is known and manages a cluster, of which the engine tells managers and nodes. -/
structure Manages (e : Engine) (edge : EdgeStatus) (managers nodes : List String) : Prop where
  managing : e.managers = .ok managers
  listing : e.nodes = .ok nodes
  node : ∃ n ∈ managers, edge.nodeId = some n

/-- What is told of a cluster with these managers and nodes. -/
structure TellsOf (c : Commissioner) (e : Engine) (edge : EdgeStatus)
    (managers nodes : List String) (a : Attributes) : Prop where
  managing : a.clusterManagers = some managers
  working : ∃ workers, a.clusterWorkers = some workers ∧ Parts nodes managers workers ∧
    ∀ others, Parts nodes managers others → others = workers
  named : ∀ id, e.clusterId = some id → a.clusterId = some id
  byOwner : ∀ uuid, e.clusterId = none → c.uuid = some uuid →
    a.clusterId = some ("cluster_" ++ uuid)
  unowned : e.clusterId = none → c.uuid = none → a.clusterId = some "cluster_unknown"
  /-- What the edge knows comes before what the engine is. -/
  orchestrator : ∃ known,
    (edge.orchestrator = some known ∨ edge.orchestrator = none ∧ known = e.orchestrator) ∧
      a.clusterOrchestrator = some (if known = "docker" then "swarm" else known)

theorem tellsOf_current {c : Commissioner} {e : Engine} {edge : EdgeStatus}
    {managers nodes : List String} (h : Manages e edge managers nodes) :
    c.TellsOf e edge managers nodes (c.current e edge) := by
  obtain ⟨n, hn, hnode⟩ := h.node
  have hcontains : managers.contains n = true := by simpa using hn
  have hcurrent : c.current e edge =
      { capabilities := some capabilities
        clusterId := some (e.clusterId.getD ("cluster_" ++ c.uuid.getD "unknown"))
        clusterOrchestrator := some
          (if edge.orchestrator.getD e.orchestrator = "docker" then "swarm"
            else edge.orchestrator.getD e.orchestrator)
        clusterManagers := some managers
        clusterWorkers := some (nodes.filter fun n => !managers.contains n) } := by
    simp only [current, clusterOf, hnode, h.managing, h.listing, bind, Except.bind, hcontains,
      if_true, pure, Except.pure]
  rw [hcurrent]
  refine ⟨rfl, ⟨_, rfl, parts_filter nodes managers, fun _ => Parts.unique⟩, ?_, ?_, ?_, ?_⟩
  · intro id hid
    rw [hid]
    rfl
  · intro uuid hid huuid
    rw [hid, huuid]
    rfl
  · intro hid huuid
    rw [hid, huuid]
    rfl
  · cases edge.orchestrator with
    | some known => exact ⟨known, .inl rfl, rfl⟩
    | none => exact ⟨e.orchestrator, .inr ⟨rfl, rfl⟩, rfl⟩

theorem TellsOf.tellsCluster {c : Commissioner} {e : Engine} {edge : EdgeStatus}
    {managers nodes : List String} {a : Attributes} (h : c.TellsOf e edge managers nodes a) :
    a.TellsCluster := by
  obtain ⟨_, hworkers, _⟩ := h.working
  obtain ⟨_, _, horchestrator⟩ := h.orchestrator
  have hid : ∃ id, a.clusterId = some id := by
    cases hnamed : e.clusterId with
    | some id => exact ⟨id, h.named id hnamed⟩
    | none =>
        cases huuid : c.uuid with
        | some uuid => exact ⟨_, h.byOwner uuid hnamed huuid⟩
        | none => exact ⟨_, h.unowned hnamed huuid⟩
  obtain ⟨_, hid⟩ := hid
  simp [Attributes.TellsCluster, hid, horchestrator, h.managing, hworkers]

theorem current_of_not_manages {c : Commissioner} {e : Engine} {edge : EdgeStatus}
    (h : ∀ managers nodes, ¬Manages e edge managers nodes) :
    c.current e edge = { capabilities := some capabilities } := by
  cases hnode : edge.nodeId with
  | none => simp only [current, hnode]
  | some n =>
      simp only [current, clusterOf, hnode]
      cases hmanagers : e.managers with
      | error error => rfl
      | ok managers =>
          by_cases hn : n ∈ managers
          · cases hnodes : e.nodes with
            | error error => simp [bind, Except.bind, hn]
            | ok nodes => exact absurd ⟨hmanagers, hnodes, n, hn, hnode⟩ (h managers nodes)
          · simp [bind, Except.bind, hn, pure, Except.pure]

/-- What a run compares with what was accepted. -/
structure Gathers (c : Commissioner) (now : Nat) (w : World) (a : Attributes) : Prop where
  compared : ((c.start now w).1 = none ↔ a = c.accepted) ∧
    ∀ p, (c.start now w).1 = some p → p.current = a
  capabilities : a.capabilities = some ["NUVLA_HEARTBEAT", "NUVLA_JOB_PULL"]
  wholly : a.TellsCluster ∨ a.cluster = {}
  tells_iff : a.TellsCluster ↔ ∃ managers nodes, Manages w.engine w.edge managers nodes
  /-- If the engine answers, it is for the node to be one of the managers. -/
  tells_iff_of_answers : ∀ managers nodes, w.engine.managers = .ok managers →
    w.engine.nodes = .ok nodes → (a.TellsCluster ↔ ∃ n ∈ managers, w.edge.nodeId = some n)
  tells : ∀ managers nodes, Manages w.engine w.edge managers nodes →
    c.TellsOf w.engine w.edge managers nodes a

theorem gathers_current (c : Commissioner) (now : Nat) (w : World) :
    c.Gathers now w (c.current w.engine w.edge) := by
  have htells_iff : (c.current w.engine w.edge).TellsCluster ↔
      ∃ managers nodes, Manages w.engine w.edge managers nodes := by
    constructor
    · intro htells
      by_contra hnone
      rw [current_of_not_manages fun managers nodes h => hnone ⟨managers, nodes, h⟩] at htells
      cases htells.1
    · rintro ⟨managers, nodes, h⟩
      exact (tellsOf_current h).tellsCluster
  refine ⟨?_, ?_, ?_, htells_iff, ?_, fun _ _ => tellsOf_current⟩
  · have hstart : (c.start now w).1.map (·.current) =
        (Attributes.request c.accepted (c.current w.engine w.edge)).map
          fun _ => c.current w.engine w.edge := by
      unfold start
      simp only [World.say]
      cases Attributes.request c.accepted (c.current w.engine w.edge) <;> rfl
    constructor
    · rw [← Attributes.request_eq_none_iff, ← Option.map_eq_none_iff, hstart,
        Option.map_eq_none_iff]
    · intro p hp
      rw [hp, Option.map_some] at hstart
      obtain ⟨_, _, hcurrent⟩ := Option.map_eq_some_iff.mp hstart.symm
      exact hcurrent.symm
  · unfold current
    rfl
  · by_cases hmanages : ∃ managers nodes, Manages w.engine w.edge managers nodes
    · exact .inl (htells_iff.mpr hmanages)
    · right
      rw [current_of_not_manages fun managers nodes h => hmanages ⟨managers, nodes, h⟩]
      rfl
  · intro managers nodes hmanagers hnodes
    rw [htells_iff]
    constructor
    · rintro ⟨others, _, h⟩
      obtain rfl : others = managers := Except.ok.inj (h.managing.symm.trans hmanagers)
      exact h.node
    · exact fun hnode => ⟨managers, nodes, hmanagers, hnodes, hnode⟩

end Commissioner
end EdgeAgent
