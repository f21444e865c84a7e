import EdgeAgent.Error

/-! # The container engine

What the engine that runs the containers of an edge answers at the moment. -/

namespace EdgeAgent

abbrev Reply (α : Type) := Except EngineError α

structure Engine where
  /-- `docker`, `kubernetes` or `standalone`. -/
  orchestrator : String := "docker"
  version : Option String := none
  nodeId : Option String := none
  clusterId : Option String := none
  hostname : Option String := none
  os : String := ""
  architecture : String := ""
  plugins : List String := []
  /-- The parts of the edge that are deployed. -/
  components : List String := []
  errors : List String := []
  warnings : List String := []
  nodes : Reply (List String) := .ok []
  managers : Reply (List String) := .ok []
  /-- The usage of each container. -/
  metrics : Reply (List Json) := .ok []
  /-- The kinds of raw resources that can be listed. -/
  kinds : List String := []
  raw : List (String × Reply (List Json)) := []

namespace Engine

instance : Inhabited Engine := ⟨{}⟩

def listRaw (e : Engine) (kind : String) : Reply (List Json) :=
  match Table.lookRows kind e.raw with
  | some r => r
  | none => .error (.unsupported ("list " ++ kind))

/-- A host without an engine: a single node that belongs to no cluster. -/
def standalone (version os architecture : String) (hostname : Option String) : Engine where
  orchestrator := "standalone"
  version := some version
  hostname := hostname
  os := os
  architecture := architecture
  components := ["agent"]

end Engine
end EdgeAgent
