import EdgeAgent.Clock.Course
import EdgeAgent.Monitor.Slot

/-! # Monitors

A monitor finds something out in one pass, and writes what it knows into a
payload. -/

namespace EdgeAgent

inductive MonitorError where
  | engine (e : EngineError)
  | undecodable (m : Misread)
  | storage (e : FileError)
  | other (reason : String)
deriving DecidableEq, Repr

/-- What is asked of a monitor. -/
class Monitor (μ : Type) where
  name : μ → String
  /-- A monitor that has nothing to find out on this host is never run. -/
  enabled : μ → Bool
  /-- Begins to find out what is to be known. -/
  update : μ → Nat → World → Course μ MonitorError × World
  /-- Writes what is known. On failure part of it may have been written. -/
  populate : μ → Payload → Option MonitorError × Payload

structure Registration (μ : Type) where
  name : String
  build : World → μ × World

end EdgeAgent
