import EdgeAgent.Proofs.Commission.Run

/-! # The commissioned cluster when the engine does not answer

A run that cannot learn about the cluster gathers the same attributes as one on a
node that manages none. So it retracts every attribute of the cluster that was
accepted, and forgets them all once the server has granted that.
-/

namespace EdgeAgent

/-- The names that a request lists as gone. -/
def Request.removed : Request → List String
  | .commission payload => ((payload.find? "removed").bind Json.texts?).getD []
  | _ => []

namespace Attributes

def clusterNames : List String :=
  ["cluster-id", "cluster-orchestrator", "cluster-managers", "cluster-workers"]

/-- The attributes of the cluster alone. -/
def cluster (a : Attributes) : Attributes := { a with capabilities := none }

theorem cluster_eq_empty_iff {a : Attributes} :
    a.cluster = {} ↔ ∀ name ∈ clusterNames, a.toDocument.find? name = none := by
  have hid : a.toDocument.find? "cluster-id" = a.clusterId.map .str := find?_toDocument a _
  have horchestrator : a.toDocument.find? "cluster-orchestrator" =
      a.clusterOrchestrator.map .str := find?_toDocument a _
  have hmanagers : a.toDocument.find? "cluster-managers" = a.clusterManagers.map Json.texts :=
    find?_toDocument a _
  have hworkers : a.toDocument.find? "cluster-workers" = a.clusterWorkers.map Json.texts :=
    find?_toDocument a _
  simp [clusterNames, hid, horchestrator, hmanagers, hworkers, cluster]

theorem removed_of_request {accepted current : Attributes} {payload : Document}
    (h : request accepted current = some payload) (name : String) :
    name ∈ (Request.commission payload).removed ↔
      (accepted.toDocument.find? name).isSome ∧ current.toDocument.find? name = none := by
  rw [Request.removed, (request_spec h).2, Document.mem_delete_iff]

end Attributes

namespace Commissioner

open Attributes

/-- A run leaves the commissioned cluster alone: it retracts none of its attributes
and forgets none. -/
structure KeepsCluster (c : Commissioner) (now : Nat) (w : World) (server : Remote)
    (later : World) : Prop where
  retracts : ∀ r ∈ c.requests now w server, ∀ name ∈ clusterNames, name ∉ r.removed
  remembers : (c.run now w server later).2.1.accepted.cluster = c.accepted.cluster

/-- A failure of the engine and the answer that the node manages nothing lead to the
same attributes. -/
theorem current_of_failure {c : Commissioner} {w : World} {nodeId : String} {e : EngineError}
    (hnode : w.edge.nodeId = some nodeId)
    (hfails : clusterOf w.engine c.uuid nodeId w.edge.orchestrator = .error e) :
    c.current w.engine w.edge = { capabilities := some capabilities } := by
  simp only [current, hnode, hfails]

theorem removed_of_no_cluster {c : Commissioner} {w : World}
    (hcurrent : (c.current w.engine w.edge).cluster = {}) (now : Nat) (server : Remote)
    {name : String} (hname : name ∈ clusterNames) :
    (∃ r ∈ c.requests now w server, name ∈ r.removed) ↔
      (c.accepted.toDocument.find? name).isSome := by
  have hgone := cluster_eq_empty_iff.mp hcurrent name hname
  cases hrequest : request c.accepted (c.current w.engine w.edge) with
  | none =>
      have hsame := request_eq_none_iff.mp hrequest
      obtain ⟨hnone, _⟩ := run_unchanged hsame now server {}
      rw [hsame] at hgone
      simp [hnone, hgone]
  | some payload =>
      obtain ⟨hone, _⟩ := run_changed hrequest now server {}
      simp [hone, removed_of_request hrequest, hgone]

theorem cluster_run_of_no_cluster {c : Commissioner} {w : World}
    (hcurrent : (c.current w.engine w.edge).cluster = {}) (now : Nat) (server : Remote)
    (later : World) :
    (c.run now w server later).2.1.accepted.cluster =
      if (c.run now w server later).1 then {} else c.accepted.cluster := by
  cases hrequest : request c.accepted (c.current w.engine w.edge) with
  | none =>
      obtain ⟨_, hrun⟩ := run_unchanged (request_eq_none_iff.mp hrequest) now server later
      rw [hrun]
      rfl
  | some payload =>
      obtain ⟨_, hanswer, hcommissioner, _⟩ := run_changed hrequest now server later
      rw [hanswer, hcommissioner]
      split
      · exact hcurrent
      · rfl

/-- When the engine fails, the commissioned cluster is left alone only if there is
none: every attribute of it that was accepted is listed as gone, and all are
forgotten if the request is accepted. -/
theorem keepsCluster_iff_of_failure {c : Commissioner} {w : World} {nodeId : String}
    {e : EngineError} (hnode : w.edge.nodeId = some nodeId)
    (hfails : clusterOf w.engine c.uuid nodeId w.edge.orchestrator = .error e) (now : Nat)
    (server : Remote) (later : World) :
    (c.KeepsCluster now w server later ↔ c.accepted.cluster = {}) ∧
      (∀ name ∈ clusterNames, (∃ r ∈ c.requests now w server, name ∈ r.removed) ↔
        (c.accepted.toDocument.find? name).isSome) ∧
      (c.run now w server later).2.1.accepted.cluster =
        if (c.run now w server later).1 then {} else c.accepted.cluster := by
  have hcurrent : (c.current w.engine w.edge).cluster = {} := by
    rw [current_of_failure hnode hfails]
    rfl
  have hremoved : ∀ name ∈ clusterNames, (∃ r ∈ c.requests now w server, name ∈ r.removed) ↔
      (c.accepted.toDocument.find? name).isSome :=
    fun name hname => removed_of_no_cluster hcurrent now server hname
  have hcluster := cluster_run_of_no_cluster hcurrent now server later
  refine ⟨⟨?_, ?_⟩, hremoved, hcluster⟩
  · intro hkeeps
    refine cluster_eq_empty_iff.mpr fun name hname => ?_
    by_cases hsome : (c.accepted.toDocument.find? name).isSome
    · obtain ⟨r, hr, hlisted⟩ := (hremoved name hname).mpr hsome
      exact (hkeeps.retracts r hr name hname hlisted).elim
    · exact Option.not_isSome_iff_eq_none.mp hsome
  · intro h
    refine ⟨?_, ?_⟩
    · intro r hr name hname hlisted
      have hsome := (hremoved name hname).mp ⟨r, hr, hlisted⟩
      simp [cluster_eq_empty_iff.mp h name hname] at hsome
    · rw [hcluster, h, ite_self]

/-! ## An engine that does not answer for once -/

def commissioned : Commissioner where
  accepted := {
    capabilities := some capabilities
    clusterId := some "cluster_unknown"
    clusterOrchestrator := some "swarm"
    clusterManagers := some ["a"]
    clusterWorkers := some ["b"] }
  uuid := none
  file := ["data", "commissioning"]

def silent : World where
  engine := { nodes := .ok ["a", "b"], managers := .error (.unsupported "managers") }
  edge := { nodeId := some "a" }

theorem keepsCluster_iff_of_failure_silent :
    silent.edge.nodeId = some "a" ∧
      clusterOf silent.engine none "a" none = .error (.unsupported "managers") ∧
      (commissioned.KeepsCluster 0 silent {} {} ↔ commissioned.accepted.cluster = {}) ∧
      (∀ name ∈ clusterNames, (∃ r ∈ commissioned.requests 0 silent {}, name ∈ r.removed) ↔
        (commissioned.accepted.toDocument.find? name).isSome) ∧
      (commissioned.run 0 silent {} {}).2.1.accepted.cluster =
        if (commissioned.run 0 silent {} {}).1 then {} else commissioned.accepted.cluster :=
  ⟨rfl, rfl, keepsCluster_iff_of_failure rfl rfl 0 {} {}⟩

/-- The failure retracts the accepted cluster, and it is forgotten. -/
theorem not_keepsCluster_silent :
    silent.edge.nodeId = some "a" ∧
      clusterOf silent.engine commissioned.uuid "a" silent.edge.orchestrator =
        .error (.unsupported "managers") ∧
      (∃ r ∈ commissioned.requests 0 silent {}, "cluster-id" ∈ r.removed) ∧
      ¬commissioned.KeepsCluster 0 silent {} {} := by
  refine ⟨rfl, rfl, ?_, ?_⟩
  · exact (removed_of_no_cluster rfl 0 {} (by decide)).mpr rfl
  · intro h
    exact absurd h.remembers (by decide)

end Commissioner
end EdgeAgent
