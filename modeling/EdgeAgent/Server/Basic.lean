import EdgeAgent.Plan
import EdgeAgent.Server.Response
import EdgeAgent.Server.StatusFile

/-! # The server

Seen from an edge, a server is what it answers to the requests that reach it,
one after the other: a response, a refusal or something that cannot be decoded,
each after some time. It remembers what it was asked. Without a server a status
file takes the reports. -/

namespace EdgeAgent

inductive Verdict where
  | accept
  | refuse (reason : String)
  | respond (v : Json)

/-- An answer, and how long it takes, in nanoseconds. -/
structure Answer where
  delay : Nat := 0
  verdict : Verdict := .accept

instance : Inhabited Answer := ⟨{}⟩

inductive Request where
  | heartbeat
  | telemetry (data : Document) (delete : List String)
  | commission (payload : Document)

namespace Request

def operation : Request → String
  | .heartbeat => "heartbeat"
  | .telemetry .. => "telemetry"
  | .commission _ => "commission"

end Request

namespace Answer

def outcome (a : Answer) (r : Request) : Except ServerError Response :=
  match a.verdict with
  | .accept => .ok {}
  | .refuse reason => .error (.refused r.operation reason)
  | .respond v =>
    match Response.ofJson? v with
    | some response => .ok response
    | none => .error (.undecodable { cause := .mismatched, text := Response.misfit v })

end Answer

/-- A server that answers as planned. -/
structure Remote where
  heartbeat : Plan Answer := ∅
  telemetry : Plan Answer := ∅
  commission : Plan Answer := ∅
  /-- Attributes that the status documents of the server have no room for. -/
  unsupported : List String := []
  /-- The requests that came, each with its instant, the last one first. -/
  received : List (Nat × Request) := []

namespace Remote

instance : Inhabited Remote := ⟨{}⟩

def receive (s : Remote) (now : Nat) (r : Request) : Answer × Remote :=
  let s := { s with received := (now, r) :: s.received }
  match r with
  | .heartbeat => (s.heartbeat.take.1.getD {}, { s with heartbeat := s.heartbeat.take.2 })
  | .telemetry .. => (s.telemetry.take.1.getD {}, { s with telemetry := s.telemetry.take.2 })
  | .commission _ => (s.commission.take.1.getD {}, { s with commission := s.commission.take.2 })

end Remote

/-- Who takes the reports of the edge. -/
inductive Server where
  | remote (r : Remote)
  | statusFile (path : Path)

namespace Server

instance : Inhabited Server := ⟨.remote {}⟩

/-- The status documents have room for an attribute. -/
def supports : Server → String → Bool
  | .remote r, name => !r.unsupported.contains name
  | .statusFile _, _ => true

end Server
end EdgeAgent
