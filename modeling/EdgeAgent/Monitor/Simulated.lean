import EdgeAgent.Monitor.Basic

/-! # Simulated monitors

A simulated monitor follows the plan of its track. -/

namespace EdgeAgent

structure SimulatedMonitor where
  name : String
  enabled : Bool
  /-- The number of its track. -/
  track : Nat
  /-- What the last pass found out. -/
  found : Option (Payload × Option String) := none

namespace SimulatedMonitor

open Simulation

def amend (w : World) (track : Nat) (f : MonitorTrack → MonitorTrack) : World :=
  { w with simulation := { w.simulation with monitors := w.simulation.monitors.modify track f } }

def nextPass (w : World) (track now : Nat) : Pass × World :=
  let pass := (w.simulation.monitors[track]?.bind fun t => t.passes.take.1).getD
    ⟨0, .report {} none⟩
  (pass, amend w track fun t => { t with passes := t.passes.take.2, begun := now :: t.begun })

instance : Monitor SimulatedMonitor where
  name m := m.name
  enabled m := m.enabled
  update m now w :=
    let (pass, w) := nextPass w m.track now
    (.lasting pass.delay fun m w => match pass.ending with
      | .crash => (.crashed, m, w)
      | .fail reason => (.failed (.other reason), m, w)
      | .report fragment failure => (.done, { m with found := some (fragment, failure) }, w), w)
  populate m p :=
    match m.found with
    | none => (none, p)
    | some (fragment, failure) => (failure.map .other, p.merge fragment)

def registration (name : String) (enabled : Bool) (track : Nat) : Registration SimulatedMonitor :=
  ⟨name, fun w => (⟨name, enabled, track, none⟩,
    amend w track fun t => { t with builds := t.builds + 1 })⟩

end SimulatedMonitor
end EdgeAgent
