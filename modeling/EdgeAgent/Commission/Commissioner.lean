import EdgeAgent.Commission.Attributes
import EdgeAgent.World

/-! # The commissioner

Each run gathers the attributes anew, compares them with the last ones that the
server accepted, and sends what changed. The accepted attributes are kept in a
file, so that a new commissioner goes on where the last one ended. -/

namespace EdgeAgent

structure Commissioner where
  /-- What the server accepted last. -/
  accepted : Attributes
  uuid : Option String
  /-- Where the accepted attributes are kept. -/
  file : Path
deriving DecidableEq, Repr

namespace Commissioner

def moduleName : String := "Commissioner"

def capabilities : List String := ["NUVLA_HEARTBEAT", "NUVLA_JOB_PULL"]

/-! ## The file -/

/-- The attributes in the file; none are set if it cannot be read. -/
def load (f : Files) (file : Path) : Attributes :=
  match f.read file with
  | .ok s =>
    match Attributes.parse s with
    | .ok a => a
    | .error _ => {}
  | .error _ => {}

def save (f : Files) (file : Path) (a : Attributes) : Files :=
  match f.createDirectories file.dropLast with
  | .error _ => f
  | .ok f =>
    match f.write file a.fileText with
    | .error _ => f
    | .ok f => f

def new (w : World) (uuid : Option String) (file : Path) : Commissioner × World :=
  (⟨load w.files file, uuid, file⟩, w.say moduleName .starting "")

/-! ## Attributes -/

/-- The cluster of a node, if the node manages one. -/
def clusterOf (e : Engine) (uuid : Option String) (nodeId : String) (orchestrator : Option String) :
    Reply (Option Attributes) := do
  let managers ← e.managers
  if managers.contains nodeId then
    let workers := (← e.nodes).filter fun n => !managers.contains n
    let orchestrator := orchestrator.getD e.orchestrator
    return some {
      clusterId := some (e.clusterId.getD ("cluster_" ++ uuid.getD "unknown"))
      clusterOrchestrator := some (if orchestrator = "docker" then "swarm" else orchestrator)
      clusterManagers := some managers
      clusterWorkers := some workers }
  else return none

/-- The attributes at the moment. Those of the cluster wait until the node is
known, and are left out if the engine does not answer. -/
def current (c : Commissioner) (e : Engine) (edge : EdgeStatus) : Attributes :=
  let cluster : Attributes := match edge.nodeId with
    | none => {}
    | some nodeId =>
      match clusterOf e c.uuid nodeId edge.orchestrator with
      | .ok (some cluster) => cluster
      | .ok none => {}
      | .error _ => {}
  { cluster with capabilities := some capabilities }

/-! ## Runs -/

/-- A run that waits for the server. -/
structure Pending where
  current : Attributes
  exchange : World.Exchange

def start (c : Commissioner) (now : Nat) (w : World) : Option Pending × World :=
  let w := w.say moduleName .running ""
  let current := c.current w.engine w.edge
  match Attributes.request c.accepted current with
  | none => (none, w)
  | some payload =>
    let (exchange, w) := w.send now (.commission payload)
    (some ⟨current, exchange⟩, w)

/-- Ends a run; the answer tells whether anything was sent and accepted. -/
def finish (c : Commissioner) (p : Option Pending) (w : World) : Bool × Commissioner × World :=
  match p with
  | none => (false, c, w)
  | some p =>
    match p.exchange.outcome with
    | .ok _ =>
      (true, { c with accepted := p.current },
        { w with files := save w.files c.file p.current })
    | .error e => (false, c, w.say moduleName .warning ("Commission failed: " ++ e.message))

end Commissioner
end EdgeAgent
