import EdgeAgent.Agenda.Action
import EdgeAgent.Agenda.Basic
import EdgeAgent.Agent.Basic
import EdgeAgent.Agent.Duty
import EdgeAgent.Agent.Startup
import EdgeAgent.Clock.Course
import EdgeAgent.Clock.Timeline
import EdgeAgent.Clock.Timer
import EdgeAgent.Commission.Attributes
import EdgeAgent.Commission.Commissioner
import EdgeAgent.Console
import EdgeAgent.Data.Table
import EdgeAgent.Engine
import EdgeAgent.Error
import EdgeAgent.Files
import EdgeAgent.Host
import EdgeAgent.Host.Reports
import EdgeAgent.Json.Access
import EdgeAgent.Json.Complaint
import EdgeAgent.Json.Misfit
import EdgeAgent.Json.Printer
import EdgeAgent.Json.Reader
import EdgeAgent.Json.Record
import EdgeAgent.Json.Term
import EdgeAgent.Json.Value
import EdgeAgent.Main
import EdgeAgent.Monitor.Basic
import EdgeAgent.Monitor.Builtin
import EdgeAgent.Monitor.Cluster
import EdgeAgent.Monitor.Machine
import EdgeAgent.Monitor.Network
import EdgeAgent.Monitor.Power
import EdgeAgent.Monitor.Simulated
import EdgeAgent.Monitor.Slot
import EdgeAgent.Monitor.Station
import EdgeAgent.Monitor.Temperature
import EdgeAgent.Monitor.Vulnerability
import EdgeAgent.Number.Decimal
import EdgeAgent.Number.Double
import EdgeAgent.Number.Power
import EdgeAgent.Number.Shortest
import EdgeAgent.Payload.Basic
import EdgeAgent.Payload.Changes
import EdgeAgent.Payload.Codec
import EdgeAgent.Plan
import EdgeAgent.Scenario.Surroundings
import EdgeAgent.Scenario.Tracks
import EdgeAgent.Server.Basic
import EdgeAgent.Server.Response
import EdgeAgent.Server.StatusFile
import EdgeAgent.Settings
import EdgeAgent.Simulation
import EdgeAgent.Status.Board
import EdgeAgent.Status.Report
import EdgeAgent.Telemetry.Basic
import EdgeAgent.Telemetry.Exclusion
import EdgeAgent.Text.Blank
import EdgeAgent.Text.Printable
import EdgeAgent.Text.Quoted
import EdgeAgent.Time.Duration
import EdgeAgent.Time.Timestamp
import EdgeAgent.Worker.Basic
import EdgeAgent.Worker.Craft
import EdgeAgent.Worker.Crew
import EdgeAgent.Worker.Simulated
import EdgeAgent.Worker.State
import EdgeAgent.World
import EdgeAgent.Proofs.Data.Table
import EdgeAgent.Proofs.Json.Equality
import EdgeAgent.Proofs.Payload.Changes
import EdgeAgent.Proofs.Payload.Codec
import EdgeAgent.Proofs.Payload.Least
import EdgeAgent.Proofs.Agent.Mirror
import EdgeAgent.Proofs.Agent.LostAnswers
import EdgeAgent.Proofs.Json.ReadsBack
import EdgeAgent.Proofs.Json.Record
import EdgeAgent.Proofs.Commission.Attributes
import EdgeAgent.Proofs.Commission.Mirror
import EdgeAgent.Proofs.Commission.Cluster
import EdgeAgent.Proofs.Status.Board
import EdgeAgent.Proofs.Status.History
import EdgeAgent.Proofs.Agenda.Countdown
import EdgeAgent.Proofs.Agenda.Starvation
import EdgeAgent.Proofs.Worker.Moves
import EdgeAgent.Proofs.Worker.States
import EdgeAgent.Proofs.Worker.Log
import EdgeAgent.Proofs.Worker.Idle
import EdgeAgent.Proofs.Worker.Calls
import EdgeAgent.Proofs.Worker.Waiting
import EdgeAgent.Proofs.Worker.Steps
import EdgeAgent.Proofs.Worker.OneUnit
import EdgeAgent.Proofs.Worker.Stopping
import EdgeAgent.Proofs.Agenda.Cards
import EdgeAgent.Proofs.Agent.Life
import EdgeAgent.Proofs.Agent.Orderly
import EdgeAgent.Proofs.Monitor.Fragments
import EdgeAgent.Proofs.Monitor.Passes
import EdgeAgent.Proofs.Telemetry.Collection
import EdgeAgent.Proofs.Number.Rounding
import EdgeAgent.Proofs.Number.Shortest
import EdgeAgent.Proofs.Json.Scaling
import EdgeAgent.Proofs.Json.Numbers
import EdgeAgent.Proofs.Json.Nesting
import EdgeAgent.Proofs.Json.Readable
import EdgeAgent.Proofs.Server.StatusFile
import EdgeAgent.Proofs.Monitor.Vulnerability
import EdgeAgent.Proofs.Worker.Healing
import EdgeAgent.Proofs.Agent.Takeover
import EdgeAgent.Proofs.Payload.Latest
import EdgeAgent.Proofs.Agenda.Selection
import EdgeAgent.Proofs.Agenda.Draining
import EdgeAgent.Proofs.Worker.Cadence
import EdgeAgent.Proofs.Monitor.Leftovers
import EdgeAgent.Proofs.Monitor.Hindered
import EdgeAgent.Proofs.Telemetry.EdgeStatus
import EdgeAgent.Proofs.Monitor.Diary
import EdgeAgent.Proofs.Monitor.Cadence
import EdgeAgent.Proofs.Monitor.Punctual
import EdgeAgent.Proofs.Monitor.Sensors
import EdgeAgent.Proofs.Number.Order
import EdgeAgent.Proofs.Data.Ranking
import EdgeAgent.Proofs.Monitor.Severity
import EdgeAgent.Proofs.Monitor.Scans
import EdgeAgent.Proofs.Commission.Membership
import EdgeAgent.Proofs.Telemetry.Health
import EdgeAgent.Proofs.Payload.RoundTrip
import EdgeAgent.Proofs.Settings
import EdgeAgent.Proofs.Json.Whole
import EdgeAgent.Proofs.Server.Attempts
import EdgeAgent.Proofs.Clock.Turns
import EdgeAgent.Proofs.Worker.Together
import EdgeAgent.Proofs.Text.Pieces
import EdgeAgent.Proofs.Telemetry.Exclusion
import EdgeAgent.Proofs.Telemetry.Selection
