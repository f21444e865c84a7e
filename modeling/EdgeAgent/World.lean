import EdgeAgent.Clock.Timer
import EdgeAgent.Engine
import EdgeAgent.Host
import EdgeAgent.Server.Basic
import EdgeAgent.Simulation
import EdgeAgent.Status.Board

/-! # The surroundings of an agent

Everything that an agent and its parts share with each other and with the
outside: the engine, the server, the host and its files, the calendar, the status
board, and what is known about the node. -/

namespace EdgeAgent

structure EdgeStatus where
  nodeId : Option String := none
  orchestrator : Option String := none
deriving DecidableEq, Repr, Inhabited

structure World where
  engine : Engine := {}
  server : Server := .remote {}
  host : Host := {}
  files : Files := {}
  /-- Where the host's file system is mounted. -/
  hostRoot : Path := ["rootfs"]
  /-- The directory shared by the parts of the edge. -/
  sharedRoot : Path := ["var", "lib", "nuvlaedge"]
  /-- The server has room for the resources of the engine. -/
  engineResources : Bool := false
  edge : EdgeStatus := {}
  board : Board := {}
  /-- What the calendar shows. -/
  date : Timestamp := ⟨0, 0⟩
  simulation : Simulation := {}
  /-- How many turns were taken so far. -/
  turns : Nat := 0

namespace World

instance : Inhabited World := ⟨{}⟩

/-- The rank of one who sets a timer in the turn that is being taken. -/
def rank (w : World) : Rank := .queue w.turns

def say (w : World) (origin : String) (status : ModuleStatus) (note : String) : World :=
  { w with board := w.board.say w.date origin status note }

structure Exchange where
  /-- How long the answer takes, in nanoseconds. -/
  delay : Nat
  outcome : Except ServerError Response

/-- Sends a request at an instant. What the server does to its own state is done
when the request arrives; the answer comes later. -/
def send (w : World) (now : Nat) (r : Request) : Exchange × World :=
  match w.server with
  | .remote s =>
    let (a, s) := s.receive now r
    (⟨a.delay, a.outcome r⟩, { w with server := .remote s })
  | .statusFile path =>
    match r with
    | .telemetry data delete =>
      let (outcome, files) := StatusFile.telemetry .never w.files path data delete
      (⟨0, outcome.map fun _ => {}⟩, { w with files })
    | .heartbeat => (⟨0, .ok {}⟩, w)
    | .commission _ => (⟨0, .ok {}⟩, w)

end World
end EdgeAgent
