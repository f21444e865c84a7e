import EdgeAgent.Commission.Commissioner
import EdgeAgent.Monitor.Builtin
import EdgeAgent.Telemetry.Basic
import EdgeAgent.Worker.Crew

/-! # The duties of an agent

The units that an agent's workers work with: one looks after the monitors, the
other after the commissioned attributes. Either has one action. -/

namespace EdgeAgent

inductive Duty where
  | telemetry (t : Telemetry Builtin)
  | commissioner (c : Commissioner)

namespace Duty

inductive Param where
  | telemetry (excluded : Option String) (period : Nat)
  | commissioner (uuid : Option String) (file : Path)
deriving DecidableEq, Repr

inductive Act where
  | run
deriving DecidableEq, Repr

def telemetry? : Duty → Option (Telemetry Builtin)
  | .telemetry t => some t
  | .commissioner _ => none

def commissioner? : Duty → Option Commissioner
  | .commissioner c => some c
  | .telemetry _ => none

def mapTelemetry (f : Telemetry Builtin → Telemetry Builtin) : Duty → Duty
  | .telemetry t => .telemetry (f t)
  | .commissioner c => .commissioner c

def build (p : Param) (now : Nat) (w : World) : Duty × World :=
  match p with
  | .telemetry excluded period =>
    let (t, w) := Telemetry.new Builtin.registry excluded period now w
    (.telemetry t, w)
  | .commissioner uuid file =>
    let (c, w) := Commissioner.new w uuid file
    (.commissioner c, w)

def checkCourse (now : Nat) : Course Duty UnitError :=
  .immediate fun d w => match d with
    | .telemetry t =>
      let (t, w) := t.check now w
      (.done, .telemetry t, w)
    | d => (.done, d, w)

/-- A run of the commissioner, which takes as long as the server. -/
def commissionCourse (pending : Option Commissioner.Pending) : Course Duty UnitError :=
  let delay := match pending with
    | some p => p.exchange.delay
    | none => 0
  .lasting delay fun d w => match d with
    | .commissioner c =>
      let (_, c, w) := c.finish pending w
      (.done, .commissioner c, w)
    | d => (.done, d, w)

def perform (d : Duty) (now : Nat) (w : World) : Course Duty UnitError × World :=
  match d with
  | .telemetry _ => (checkCourse now, w)
  | .commissioner c =>
    let (pending, w) := c.start now w
    (commissionCourse pending, w)

instance : Craft Duty Param Act where
  capabilities _ := [.run]
  build p now w :=
    let (d, w) := build p now w
    (.ok d, w)
  perform d _ now w := perform d now w
  actionName _ := "Run"

instance : Timed Duty where
  due d now := match d with
    | .telemetry t => t.due now
    | .commissioner _ => none
  turn d now w := match d with
    | .telemetry t =>
      let (t, w) := t.turn now w
      (.telemetry t, w)
    | .commissioner c => (.commissioner c, w)

end Duty
end EdgeAgent
