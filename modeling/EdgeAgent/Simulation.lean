import EdgeAgent.Error
import EdgeAgent.Payload.Basic
import EdgeAgent.Plan

/-! # Simulated monitors and units

What simulated parts of an agent will do, and what they have done so far. A plan
goes on when a part is built anew. -/

namespace EdgeAgent

namespace Simulation

inductive PassEnd where
  | crash
  | fail (reason : String)
  /-- The fragment is written, after which writing may still fail. -/
  | report (fragment : Payload) (failure : Option String)

structure Pass where
  /-- Nanoseconds. -/
  delay : Nat
  ending : PassEnd

structure MonitorTrack where
  passes : Plan Pass
  /-- How often the monitor has been built. -/
  builds : Nat
  /-- The instants at which passes began, the last one first. -/
  begun : List Nat

inductive WorkEnd where
  | done
  | crash
  | fail (e : UnitError)

structure Work where
  /-- Nanoseconds. -/
  delay : Nat
  ending : WorkEnd

structure Begun where
  instant : Nat
  label : String
  action : String

structure UnitTrack where
  capabilities : List String
  builds : Plan Work
  actions : List (String × Plan Work)
  /-- What the unit was built with so far, the last one first. -/
  labels : List String
  /-- The actions that were begun, the last one first. -/
  begun : List Begun

end Simulation

structure Simulation where
  monitors : List Simulation.MonitorTrack := []
  units : Table Simulation.UnitTrack := Table.empty
  /-- Something crashed in the hands of the one who started the simulation. -/
  crashed : Bool := false

instance : Inhabited Simulation := ⟨{}⟩

end EdgeAgent
