import EdgeAgent.Json.Value

/-! # States of a worker

A worker is built, runs, and stops or fails. A stopped one may go on; a failed
one has to be built anew. -/

namespace EdgeAgent

inductive WorkerState where
  /-- The unit is built, and the loop not started. -/
  | constructed
  | running
  /-- The loop has ended as it was asked to. -/
  | stopped
  /-- The worker has given up. -/
  | failed (causes : List String)
deriving DecidableEq, Repr, Inhabited

namespace WorkerState

def isFailed : WorkerState → Bool
  | .failed _ => true
  | _ => false

/-- A worker may change from the one state to the other. -/
def allows : WorkerState → WorkerState → Bool
  | .constructed, .running => true
  | .running, .stopped => true
  | .running, .failed _ => true
  | .stopped, .constructed => true
  | .failed _, .constructed => true
  | .stopped, .running => true
  | _, _ => false

def name : WorkerState → String
  | .constructed => "constructed"
  | .running => "running"
  | .stopped => "stopped"
  | .failed _ => "failed"

def toJson (s : WorkerState) : Json :=
  .ofDocument <| match s with
    | .failed causes => Table.ofList [("state", .str s.name), ("causes", Json.texts causes)]
    | s => Table.ofList [("state", .str s.name)]

end WorkerState
end EdgeAgent
