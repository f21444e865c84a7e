import EdgeAgent.Monitor.Simulated
import EdgeAgent.Payload.Codec
import EdgeAgent.Scenario.Surroundings
import EdgeAgent.Worker.Simulated

/-! # Simulated parts of a scenario

The plans of simulated monitors and units are read from JSON, and their logs are
written as JSON. -/

namespace EdgeAgent

namespace Payload

def ofJsonOrEmpty (v : Json) : Payload := (ofJson? v).getD {}

end Payload

namespace UnitError

/-- An exit under `exit`, or a failure under `fail` that may have a `context`. -/
def ofJson (v : Json) : UnitError :=
  match v.textAt? "exit" with
  | some reason => .exit reason
  | none => .failed ((v.textAt? "fail").getD "") (v.textAt? "context")

end UnitError

namespace Simulation

def Pass.ofJson (v : Json) : Pass where
  delay := Plan.delayOfJson v
  ending :=
    if (v.get "panic").isTrue then .crash
    else match v.textAt? "fail" with
      | some reason => .fail reason
      | none => .report (Payload.ofJsonOrEmpty (v.get "set")) (v.textAt? "populate_fail")

def MonitorTrack.ofJson (v : Json) : MonitorTrack :=
  ⟨Plan.ofJson Pass.ofJson (v.get "updates"), 0, []⟩

def Work.ofJson (v : Json) : Work where
  delay := Plan.delayOfJson v
  ending :=
    if (v.get "panic").isTrue then .crash
    else if v.has "exit" || v.has "fail" then .fail (UnitError.ofJson v)
    else .done

def usualActions : List String := ["Tick", "Poll", "Sync", "Flush"]

def UnitTrack.ofJson (v : Json) : UnitTrack where
  capabilities := ((v.get "capabilities").texts?).getD usualActions
  builds := Plan.ofJson Work.ofJson (v.get "builds")
  actions := (v.membersAt "performs").map fun (name, plan) => (name, Plan.ofJson Work.ofJson plan)
  labels := []
  begun := []

private def millisJson (instant : Nat) : Json := .ofNat (Instant.millis instant)

def MonitorTrack.toJson (t : MonitorTrack) : Json :=
  Json.object [("builds", .ofNat t.builds), ("updates", .arr (t.begun.reverse.map millisJson))]

def UnitTrack.toJson (t : UnitTrack) : Json :=
  Json.object [("builds", Json.texts t.labels.reverse),
    ("performs", .arr (t.begun.reverse.map fun b =>
      .arr [millisJson b.instant, .str b.label, .str b.action]))]

def forgetBegun (s : Simulation) : Simulation :=
  { s with
    monitors := s.monitors.map fun t => { t with begun := [] }
    units := s.units.mapRows fun _ t => { t with begun := [] } }

end Simulation

namespace SimulatedMonitor

/-- A registration for every monitor that is described, each with a track of its
own. -/
def registryOfJson (monitors : List Json) : List (Registration SimulatedMonitor) :=
  monitors.zipIdx.map fun (v, i) =>
    registration ((v.textAt? "name").getD "") (v.get "enabled" matches .null | .bool true) i

end SimulatedMonitor

namespace SimulatedParam

def ofTrack (w : World) (track label : String) : SimulatedParam where
  track := track
  label := label
  capabilities :=
    ((w.simulation.units.find? track).map (·.capabilities)).getD Simulation.usualActions

end SimulatedParam
end EdgeAgent
