import EdgeAgent.Json.Record
import EdgeAgent.Time.Timestamp

/-! # Reports of modules

What a module says about itself, and the state of the whole edge that follows
from it, with their written forms. -/

namespace EdgeAgent

inductive EdgeState where
  | operational
  | degraded
  | unknown
deriving DecidableEq, Repr, Inhabited

namespace EdgeState

def all : List EdgeState := [.operational, .degraded, .unknown]

def name : EdgeState → String
  | .operational => "OPERATIONAL"
  | .degraded => "DEGRADED"
  | .unknown => "UNKNOWN"

def ofName? (s : String) : Option EdgeState := all.find? fun e => e.name == s

theorem ofName?_name (e : EdgeState) : ofName? e.name = some e := by
  cases e <;> decide

end EdgeState

inductive ModuleStatus where
  | starting
  | running
  | stopped
  | warning
  | failing
  | failed
  | unknown
deriving DecidableEq, Repr, Inhabited

namespace ModuleStatus

def all : List ModuleStatus :=
  [.starting, .running, .stopped, .warning, .failing, .failed, .unknown]

def name : ModuleStatus → String
  | .starting => "STARTING"
  | .running => "RUNNING"
  | .stopped => "STOPPED"
  | .warning => "WARNING"
  | .failing => "FAILING"
  | .failed => "FAILED"
  | .unknown => "UNKNOWN"

def ofName? (s : String) : Option ModuleStatus := all.find? fun e => e.name == s

def shape : Shape := .oneOf (all.map name)

def parse (s : String) : Except Misread ModuleStatus := do
  match (← Json.decode s (Term.ofShape Json.depthLimit shape)).text?.bind ofName? with
  | some m => return m
  | none => .error .mismatched

end ModuleStatus

structure Report where
  origin : String
  status : ModuleStatus
  date : Timestamp
  note : String
deriving DecidableEq, Repr, Inhabited

namespace Report

def fields : List Field :=
  [⟨"origin_module", .text, .refused⟩,
   ⟨"module_status", ModuleStatus.shape, .refused⟩,
   ⟨"date", .textWhere fun s => (Timestamp.ofText? s).isSome, .refused⟩,
   ⟨"message", .text, .usual⟩]

def ofRow? (row : Row) : Option Report := do
  let origin ← (← row.at? 0).text?
  let status ← ModuleStatus.ofName? (← (← row.at? 1).text?)
  let date ← Timestamp.ofText? (← (← row.at? 2).text?)
  return ⟨origin, status, date, ((row.at? 3).bind Json.text?).getD ""⟩

def parse (s : String) : Except Misread Report := do
  match ofRow? (← Json.parseRecord fields s) with
  | some r => return r
  | none => .error .mismatched

def toDocument (r : Report) : Document :=
  Table.ofList [("origin_module", .str r.origin), ("module_status", .str r.status.name),
    ("date", .str r.date.text), ("message", .str r.note)]

end Report
end EdgeAgent
