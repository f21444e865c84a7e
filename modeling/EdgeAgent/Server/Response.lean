import EdgeAgent.Error
import EdgeAgent.Json.Misfit

/-! # Answers of the server

An answer may ask for jobs to be done and for other periods of reporting. -/

namespace EdgeAgent

structure Response where
  jobs : List String := []
  lastUpdated : Option String := none
  /-- Seconds between telemetry reports that the server asks for. -/
  refreshInterval : Option Nat := none
  /-- Seconds between heartbeats that the server asks for. -/
  heartbeatInterval : Option Nat := none
deriving DecidableEq, Repr, Inhabited

namespace Response

def fields : List Field :=
  [⟨"jobs", .texts, .usual⟩, ⟨"doc-last-updated", .text, .unset⟩,
   ⟨"refresh-interval", .word, .unset⟩, ⟨"heartbeat-interval", .word, .unset⟩]

private def word? : Json → Option Nat
  | .int n => some n.toNat
  | _ => none

def ofRow (row : Row) : Response where
  jobs := ((row.at? 0).bind Json.texts?).getD []
  lastUpdated := (row.at? 1).bind Json.text?
  refreshInterval := (row.at? 2).bind word?
  heartbeatInterval := (row.at? 3).bind word?

def ofJson? (v : Json) : Option Response := (Record.ofJson fields v).map ofRow

def misfit (v : Json) : String := (Record.misfit? "NuvlaResponse" fields v).getD ""

def parse (s : String) : Except Misread Response := (Json.parseRecord fields s).map ofRow

def toJson (r : Response) : Json :=
  .ofDocument <| Table.ofList
    [("jobs", Json.texts r.jobs), ("doc-last-updated", Json.ofOption .str r.lastUpdated),
     ("refresh-interval", Json.ofOption .ofNat r.refreshInterval),
     ("heartbeat-interval", Json.ofOption .ofNat r.heartbeatInterval)]

end Response
end EdgeAgent
