import EdgeAgent.Json.Access
import EdgeAgent.World

/-! # Scenarios

A scenario describes the surroundings of an agent in JSON: the engine, what the
server will answer, and the files. The same form changes them later on: what it
names is overwritten, all else stays. -/

namespace EdgeAgent

namespace Plan

variable {α : Type}

def ofJson (f : Json → α) (v : Json) : Plan α := ⟨v.items.map f⟩

/-- How long something planned takes: the milliseconds under `sleep`, thirty years at most. -/
def delayOfJson (v : Json) : Nat := min (Duration.ofMillis (v.natAt "sleep")) Instant.longWait

end Plan

namespace Files

private def hexDigit (c : Char) : Nat :=
  if '0' ≤ c ∧ c ≤ '9' then c.toNat - '0'.toNat
  else if 'a' ≤ c ∧ c ≤ 'f' then c.toNat - 'a'.toNat + 10
  else c.toNat - 'A'.toNat + 10

def bytesOfHex : List Char → List UInt8
  | a :: b :: rest => (hexDigit a * 16 + hexDigit b).toUInt8 :: bytesOfHex rest
  | _ => []

/-- What a file of a scenario holds: a text, or bytes under `hex`. -/
def contentOfJson : Json → Option String
  | .str s => some s
  | v =>
    match v.textAt? "hex" with
    | some h => String.fromUTF8? (ByteArray.mk (bytesOfHex h.toList).toArray)
    | none => none

def orElse (f : Files) (r : Except FileError Files) : Files :=
  match r with
  | .ok f => f
  | .error _ => f

def place (f : Files) (p : Path) (text : Option String) : Files :=
  f.orElse do (← f.createDirectories p.dropLast).put p text

def changeOne (root : Path) (f : Files) (change : String × Json) : Files :=
  let path := root ++ Path.ofText change.1
  match change.2 with
  | .null => f.remove path
  | v => if v.has "dir" then f.orElse (f.createDirectories path) else f.place path (contentOfJson v)

def change (f : Files) (root : Path) (v : Json) : Files := v.members.foldl (changeOne root) f

end Files

namespace Engine

/-- An answer of the engine: a list, or an object with the reason why there is
none. -/
def replyOfJson {α : Type} (f : Json → α) (v : Json) : Reply α :=
  match v.textAt? "failed", v.textAt? "unsupported" with
  | some m, _ => .error (.failed m)
  | none, some m => .error (.unsupported m)
  | none, none => .ok (f v)

private def changeOne (e : Engine) (change : String × Json) : Engine :=
  let v := change.2
  match change.1 with
  | "orchestrator" => { e with orchestrator := v.text?.getD "docker" }
  | "engine_version" => { e with version := v.text? }
  | "node_id" => { e with nodeId := v.text? }
  | "cluster_id" => { e with clusterId := v.text? }
  | "hostname" => { e with hostname := v.text? }
  | "os" => { e with os := v.text?.getD "" }
  | "arch" => { e with architecture := v.text?.getD "" }
  | "plugins" => { e with plugins := v.textItems }
  | "components" => { e with components := v.textItems }
  | "errors" => { e with errors := v.textItems }
  | "warnings" => { e with warnings := v.textItems }
  | "nodes" => { e with nodes := replyOfJson Json.textItems v }
  | "managers" => { e with managers := replyOfJson Json.textItems v }
  | "metrics" => { e with metrics := replyOfJson Json.items v }
  | "kinds" => { e with kinds := v.textItems }
  | "raw" => { e with raw := v.members.map fun (kind, r) => (kind, replyOfJson Json.items r) }
  | _ => e

def change (e : Engine) (v : Json) : Engine := v.members.foldl changeOne e

end Engine

namespace Answer

def ofJson (v : Json) : Answer where
  delay := Plan.delayOfJson v
  verdict :=
    match v.textAt? "fail", v.get "response" with
    | some reason, _ => .refuse reason
    | none, .null => .accept
    | none, response => .respond response

end Answer

namespace Server

private def changeOne (r : Remote) (change : String × Json) : Remote :=
  match change.1 with
  | "heartbeat" => { r with heartbeat := Plan.ofJson Answer.ofJson change.2 }
  | "telemetry" => { r with telemetry := Plan.ofJson Answer.ofJson change.2 }
  | "commission" => { r with commission := Plan.ofJson Answer.ofJson change.2 }
  | "unsupported" => { r with unsupported := change.2.textItems }
  | _ => r

/-- Restarts the plans that an object names. -/
def change (s : Server) (v : Json) : Server :=
  match s with
  | .remote r => .remote (v.members.foldl changeOne r)
  | .statusFile path => .statusFile path

end Server

namespace World

def change (w : World) (v : Json) : World :=
  { w with
    engine := w.engine.change (v.get "coe")
    server := w.server.change (v.get "nuvla")
    files := (w.files.change w.hostRoot (v.get "files")).change w.sharedRoot (v.get "shared") }

def received (w : World) : List (Nat × Request) :=
  match w.server with
  | .remote r => r.received.reverse
  | .statusFile _ => []

def forgetReceived (w : World) : World :=
  match w.server with
  | .remote r => { w with server := .remote { r with received := [] } }
  | .statusFile _ => w

end World
end EdgeAgent
