import EdgeAgent.Json.Printer
import EdgeAgent.Payload.Changes

/-! # Commissioned attributes

What the server is told about the capabilities of an edge and the cluster that
it manages. Only changes are sent; attributes that are gone are listed. -/

namespace EdgeAgent

structure Attributes where
  capabilities : Option (List String) := none
  clusterId : Option String := none
  clusterOrchestrator : Option String := none
  clusterManagers : Option (List String) := none
  clusterWorkers : Option (List String) := none
deriving DecidableEq, Repr, Inhabited

namespace Attributes

def fields : List Field :=
  [⟨"capabilities", .texts, .unset⟩, ⟨"cluster-id", .text, .unset⟩,
   ⟨"cluster-orchestrator", .text, .unset⟩, ⟨"cluster-managers", .texts, .unset⟩,
   ⟨"cluster-workers", .texts, .unset⟩]

def ofRow (row : Row) : Attributes where
  capabilities := (row.at? 0).bind Json.texts?
  clusterId := (row.at? 1).bind Json.text?
  clusterOrchestrator := (row.at? 2).bind Json.text?
  clusterManagers := (row.at? 3).bind Json.texts?
  clusterWorkers := (row.at? 4).bind Json.texts?

def ofJson? (v : Json) : Option Attributes := (Record.ofJson fields v).map ofRow

def parse (s : String) : Except Misread Attributes := (Json.parseRecord fields s).map ofRow

/-- The attributes that are set, in the order of their declaration. -/
def entries (a : Attributes) : List (String × Json) :=
  [("capabilities", a.capabilities.map Json.texts), ("cluster-id", a.clusterId.map .str),
   ("cluster-orchestrator", a.clusterOrchestrator.map .str),
   ("cluster-managers", a.clusterManagers.map Json.texts),
   ("cluster-workers", a.clusterWorkers.map Json.texts)].filterMap
    fun (n, v) => v.map fun v => (n, v)

def toDocument (a : Attributes) : Document := Table.ofList a.entries

def fileText (a : Attributes) : String := (Json.obj a.entries).prettyText

/-- The request that turns the accepted attributes into the current ones: the
changed values, and under `removed` the names that are gone; none if nothing
changed. -/
def request (accepted current : Attributes) : Option Document :=
  let new := current.toDocument
  let changes := Document.changes accepted.toDocument new
  if changes.isEmpty then none
  else
    let data := Document.only new changes.send
    some (if changes.delete.isEmpty then data
      else data.insert "removed" (Json.texts changes.delete))

end Attributes
end EdgeAgent
