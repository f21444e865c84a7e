import EdgeAgent.Monitor.Cluster
import EdgeAgent.Monitor.Machine
import EdgeAgent.Monitor.Network
import EdgeAgent.Monitor.Power
import EdgeAgent.Monitor.Vulnerability

/-! # The monitors of an agent

One type for the monitors that every agent knows, and their registry. A pass of
theirs takes no time. -/

namespace EdgeAgent

inductive Builtin where
  | deployment (d : Deployment)
  | load (l : Load)
  | engineResources (supported : Bool) (r : EngineResources)
  | power (r : PowerReadings)
  | containers (u : ContainerUsage)
  | network (r : NetworkReport)
  | temperature (t : Temperatures)
  | vulnerability (v : Vulnerabilities)

namespace Builtin

def name : Builtin → String
  | .deployment _ => "nuvlaedge_info_monitor"
  | .load _ => "resources_monitor"
  | .engineResources .. => "coe_resources_monitor"
  | .power _ => "power_monitor"
  | .containers _ => "container_stats_monitor"
  | .network _ => "network_monitor"
  | .temperature _ => "temperature_monitor"
  | .vulnerability _ => "vulnerabilities_monitor"

def enabled : Builtin → Bool
  | .engineResources supported _ => supported
  | .power r => !r.drivers.isEmpty
  | _ => true

/-- A whole pass. What fails changes nothing. -/
def pass (m : Builtin) (w : World) : Except MonitorError (Builtin × World) :=
  match m with
  | .deployment _ => .ok (.deployment (Deployment.read w), w)
  | .load _ => .ok (.load ⟨some w.host⟩, w)
  | .engineResources supported _ => do
    let r ← EngineResources.read w.engine
    return (.engineResources supported r, { w with edge := r.edge })
  | .power r => .ok (.power (r.update w), w)
  | .containers _ => do
    let u ← ContainerUsage.read w.engine
    return (.containers u, { w with edge := u.edge })
  | .network _ => .ok (.network (NetworkReport.read w), w)
  | .temperature t => do return (.temperature (← t.update w), w)
  | .vulnerability v => do return (.vulnerability (← v.update w), w)

def populate (m : Builtin) (p : Payload) : Payload :=
  match m with
  | .deployment d => d.populate p
  | .load l => l.populate p
  | .engineResources _ r => r.populate p
  | .power r => r.populate p
  | .containers u => u.populate p
  | .network r => r.populate p
  | .temperature t => t.populate p
  | .vulnerability v => v.populate p

/-- The monitor pauses in a pass, since it waits for a file. -/
def pauses : Builtin → Bool
  | .vulnerability _ => true
  | _ => false

instance : Monitor Builtin where
  name := name
  enabled := enabled
  update m _ w :=
    (⟨if m.pauses then some 0 else none, fun m w => match m.pass w with
      | .ok (m, w) => (.done, m, w)
      | .error e => (.failed e, m, w)⟩, w)
  populate m p := (none, m.populate p)

def registry : List (Registration Builtin) :=
  [⟨"nuvlaedge_info_monitor", fun w => (.deployment {}, w)⟩,
   ⟨"resources_monitor", fun w => (.load {}, w)⟩,
   ⟨"coe_resources_monitor", fun w => (.engineResources w.engineResources {}, w)⟩,
   ⟨"power_monitor", fun w => (.power (PowerReadings.new w), w)⟩,
   ⟨"container_stats_monitor", fun w => (.containers {}, w)⟩,
   ⟨"network_monitor", fun w => (.network {}, w)⟩,
   ⟨"temperature_monitor", fun w => (.temperature {}, w)⟩,
   ⟨"vulnerabilities_monitor", fun w => (.vulnerability {}, w)⟩]

end Builtin
end EdgeAgent
