import EdgeAgent.Status.Report

/-! # Telemetry payloads

A payload gives a value to some of the attributes of an edge. The attribute
decides the type of its value, so a payload is a function from attributes. -/

namespace EdgeAgent

inductive Attribute where
  | status
  | statusNotes
  | currentTime
  | components
  | engineVersion
  | resources
  | lastBoot
  | vulnerabilities
  | network
  | temperatures
  | operatingSystem
  | architecture
  | ip
  | hostname
  | dockerVersion
  | nodeId
  | clusterId
  | clusterManagers
  | clusterNodes
  | clusterNodeRole
  | orchestrator
  | containerPlugins
  | kubeletVersion
  | coeResources
deriving DecidableEq, Repr, Inhabited

inductive Kind where
  | state
  | text
  | texts
  | document
  | documents
deriving DecidableEq, Repr

@[reducible] def Kind.Carrier : Kind → Type
  | .state => EdgeState
  | .text => String
  | .texts => List String
  | .document => Json
  | .documents => List Json

namespace Attribute

/-- All attributes, in the order in which an array lists them. -/
def all : List Attribute :=
  [.status, .statusNotes, .currentTime, .components, .engineVersion, .resources, .lastBoot,
   .vulnerabilities, .network, .temperatures, .operatingSystem, .architecture, .ip, .hostname,
   .dockerVersion, .nodeId, .clusterId, .clusterManagers, .clusterNodes, .clusterNodeRole,
   .orchestrator, .containerPlugins, .kubeletVersion, .coeResources]

theorem mem_all (a : Attribute) : a ∈ all := by
  cases a <;> decide

def name : Attribute → String
  | .status => "status"
  | .statusNotes => "status-notes"
  | .currentTime => "current-time"
  | .components => "components"
  | .engineVersion => "nuvlabox-engine-version"
  | .resources => "resources"
  | .lastBoot => "last-boot"
  | .vulnerabilities => "vulnerabilities"
  | .network => "network"
  | .temperatures => "temperatures"
  | .operatingSystem => "operating-system"
  | .architecture => "architecture"
  | .ip => "ip"
  | .hostname => "hostname"
  | .dockerVersion => "docker-server-version"
  | .nodeId => "node-id"
  | .clusterId => "cluster-id"
  | .clusterManagers => "cluster-managers"
  | .clusterNodes => "cluster-nodes"
  | .clusterNodeRole => "cluster-node-role"
  | .orchestrator => "orchestrator"
  | .containerPlugins => "container-plugins"
  | .kubeletVersion => "kubelet-version"
  | .coeResources => "coe-resources"

@[reducible] def kind : Attribute → Kind
  | .status => .state
  | .statusNotes | .components | .clusterManagers | .clusterNodes | .containerPlugins => .texts
  | .resources | .vulnerabilities | .network | .coeResources => .document
  | .temperatures => .documents
  | .currentTime | .engineVersion | .lastBoot | .operatingSystem | .architecture | .ip
  | .hostname | .dockerVersion | .nodeId | .clusterId | .clusterNodeRole | .orchestrator
  | .kubeletVersion => .text

@[reducible] def Carrier (a : Attribute) : Type := a.kind.Carrier

end Attribute

structure Payload where
  value : (a : Attribute) → Option a.Carrier

namespace Payload

def empty : Payload := ⟨fun _ => none⟩

instance : Inhabited Payload := ⟨empty⟩
instance : EmptyCollection Payload := ⟨empty⟩

def set (p : Payload) (a : Attribute) (v : Option a.Carrier) : Payload :=
  ⟨fun b => if h : a = b then h ▸ v else p.value b⟩

def put (p : Payload) (a : Attribute) (v : a.Carrier) : Payload := p.set a (some v)

@[simp] theorem value_set_self (p : Payload) (a : Attribute) (v : Option a.Carrier) :
    (p.set a v).value a = v := by
  simp [set]

theorem value_set_of_ne (p : Payload) {a b : Attribute} (v : Option a.Carrier) (h : a ≠ b) :
    (p.set a v).value b = p.value b := by
  simp [set, h]

/-! ## Merging -/

/-- The resources after another fragment: the sections of two objects are put
together, anything else is replaced. -/
def mergeResources : Option Json → Option Json → Option Json
  | mine, none => mine
  | some (.obj mine), some (.obj theirs) =>
    some (.ofDocument ((Table.ofList mine).insertAll theirs))
  | _, some theirs => some theirs

/-- What `q` says, and what `p` says where `q` says nothing. The resources of
several monitors share one attribute, so their sections are put together. -/
def merge (p q : Payload) : Payload :=
  ⟨fun
    | .resources => mergeResources (p.value .resources) (q.value .resources)
    | a => (q.value a).or (p.value a)⟩

end Payload
end EdgeAgent
