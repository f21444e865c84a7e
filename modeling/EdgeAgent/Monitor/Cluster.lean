import EdgeAgent.Monitor.Basic

/-! # The cluster of the node

Two monitors ask the engine about the cluster: one lists the raw resources of
the engine, the other the containers and the role of the node. Both make the
node known to the rest of the edge. -/

namespace EdgeAgent

def nonEmpty? {α : Type} (xs : List α) : Option (List α) := if xs.isEmpty then none else some xs

/-- Asks the engine; what it does not answer fails the pass. -/
def Reply.orFail {α : Type} (r : Reply α) : Except MonitorError α := r.mapError .engine

structure EngineResources where
  orchestrator : String := ""
  nodeId : Option String := none
  clusterId : Option String := none
  managers : List String := []
  nodes : List String := []
  /-- The raw resources of each kind. -/
  raw : Document := Table.empty

namespace EngineResources

instance : Inhabited EngineResources := ⟨{}⟩

def listRaw (e : Engine) : Document :=
  e.kinds.foldl
    (fun d kind => match e.listRaw kind with
      | .ok items => d.insert kind (.arr items)
      | .error _ => d) Table.empty

def read (e : Engine) : Except MonitorError EngineResources := do
  let managers ← e.managers.orFail
  let nodes ← e.nodes.orFail
  return {
    orchestrator := e.orchestrator
    nodeId := e.nodeId
    clusterId := e.clusterId
    managers
    nodes
    raw := listRaw e }

def edge (r : EngineResources) : EdgeStatus := ⟨r.nodeId, some r.orchestrator⟩

def populate (r : EngineResources) (p : Payload) : Payload :=
  let p := p.put .orchestrator r.orchestrator
    |>.set .nodeId r.nodeId
    |>.set .clusterId r.clusterId
    |>.set .clusterManagers (nonEmpty? r.managers)
    |>.set .clusterNodes (nonEmpty? r.nodes)
  if r.raw.isEmpty then p
  else p.put .coeResources (.ofDocument (Table.ofList [(r.orchestrator, .ofDocument r.raw)]))

end EngineResources

structure ContainerUsage where
  containers : List Json := []
  dockerVersion : Option String := none
  kubeletVersion : Option String := none
  nodeId : Option String := none
  orchestrator : Option String := none
  /-- `manager` or `worker`. -/
  role : Option String := none
  clusterId : Option String := none
  managers : List String := []
  /-- Known on a manager only. -/
  nodes : List String := []

namespace ContainerUsage

instance : Inhabited ContainerUsage := ⟨{}⟩

def read (e : Engine) : Except MonitorError ContainerUsage := do
  let containers ← e.metrics.orFail
  let managers ← e.managers.orFail
  let isManager := match e.nodeId with
    | some id => managers.contains id
    | none => false
  let nodes ← if isManager then e.nodes.orFail else .ok []
  return {
    containers
    dockerVersion := if e.orchestrator = "docker" then e.version else none
    kubeletVersion := if e.orchestrator = "kubernetes" then e.version else none
    nodeId := e.nodeId
    orchestrator := e.nodeId.map fun _ => e.orchestrator
    role := e.nodeId.map fun _ => if isManager then "manager" else "worker"
    clusterId := e.clusterId
    managers
    nodes }

def edge (u : ContainerUsage) : EdgeStatus := ⟨u.nodeId, u.orchestrator⟩

def populate (u : ContainerUsage) (p : Payload) : Payload :=
  p.put .resources (.ofDocument (Table.ofList [("container-stats", .arr u.containers)]))
    |>.set .dockerVersion u.dockerVersion
    |>.set .kubeletVersion u.kubeletVersion
    |>.set .nodeId u.nodeId
    |>.set .orchestrator u.orchestrator
    |>.set .clusterNodeRole u.role
    |>.set .clusterId u.clusterId
    |>.set .clusterManagers (nonEmpty? u.managers)
    |>.set .clusterNodes (nonEmpty? u.nodes)

end ContainerUsage
end EdgeAgent
