import EdgeAgent.Worker.Craft

/-! # Simulated units

A simulated unit follows the plan of its track, and is known by the label that
it was built with. -/

namespace EdgeAgent

structure SimulatedParam where
  /-- The name of its track. -/
  track : String
  label : String
  capabilities : List String
deriving DecidableEq, Repr

structure SimulatedUnit where
  track : String
  label : String
deriving DecidableEq, Repr

namespace SimulatedUnit

open Simulation

def amend (w : World) (track : String) (f : UnitTrack → UnitTrack) : World :=
  { w with simulation := { w.simulation with units := w.simulation.units.modify track f } }

def crash (w : World) : World := { w with simulation := { w.simulation with crashed := true } }

def nextBuild (w : World) (p : SimulatedParam) : WorkEnd × World :=
  let work := ((w.simulation.units.find? p.track).bind fun t => t.builds.take.1).getD ⟨0, .done⟩
  (work.ending, amend w p.track fun t =>
    { t with builds := t.builds.take.2, labels := p.label :: t.labels })

def nextWork (w : World) (u : SimulatedUnit) (action : String) (now : Nat) : Work × World :=
  let plan (t : UnitTrack) : Plan Work := (Table.lookRows action t.actions).getD ∅
  let work := ((w.simulation.units.find? u.track).bind fun t => (plan t).take.1).getD ⟨0, .done⟩
  (work, amend w u.track fun t =>
    { t with
      actions := t.actions.map fun (name, plan) =>
        (name, if name = action then plan.take.2 else plan)
      begun := ⟨now, u.label, action⟩ :: t.begun })

instance : Craft SimulatedUnit SimulatedParam String where
  capabilities p := p.capabilities
  build p _ w :=
    match nextBuild w p with
    | (.done, w) => (.ok ⟨p.track, p.label⟩, w)
    | (.fail e, w) => (.error e, w)
    | (.crash, w) => (.error (.failed "" none), crash w)
  perform u action now w :=
    let (work, w) := nextWork w u action now
    (.lasting work.delay fun u w => match work.ending with
      | .done => (.done, u, w)
      | .crash => (.crashed, u, w)
      | .fail e => (.failed e, u, w), w)
  actionName action := action

instance : Timed SimulatedUnit := ⟨fun _ _ => none, fun u _ w => (u, w)⟩

end SimulatedUnit
end EdgeAgent
