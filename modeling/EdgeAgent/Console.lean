import EdgeAgent.Agent.Startup

/-! # The command line

What the program tells on the error channel, and how it ends. Without a server
of its own the agent reports to a status file, on a host without an engine. -/

namespace EdgeAgent.Console

def version : String := "0.1.0"

def refusal (e : SettingsError) : List String :=
  ["Error: " ++ e.message, "  export NUVLAEDGE_UUID=nuvlabox/<uuid>"]

def banner (s : Settings) : List String :=
  ["NuvlaEdge agent v" ++ version,
   "   NuvlaEdge: " ++ s.uuid.getD "(from credentials)",
   "   Nuvla endpoint: " ++ s.endpoint,
   "   Status file: " ++ s.statusFile,
   "   Telemetry every " ++ toString (Duration.seconds s.telemetryPeriod) ++
     "s, heartbeat every " ++ toString (Duration.seconds s.heartbeatPeriod) ++ "s"] ++
  (s.excluded.map ("   Excluded monitors: " ++ ·)).toList ++
  (s.loggingDirectory.map ("   Logs: " ++ ·)).toList

inductive Progress where
  /-- It ended before the loop of the agent, with an exit code. -/
  | ended (code : Nat) (world : World)
  /-- The agent is about to enter its loop. -/
  | ready (t : Timeline Agent)

/-- What an error looks like that ends the program. Only the server gives rise to
one, once the settings are accepted. -/
def failure (e : AgentError) : String :=
  "Error: " ++ match e with
    | .server e => "Nuvla(" ++ e.form ++ ")"
    | e => e.message

def begin (lookup : String → Option String) (w : World) : List String × Progress :=
  match Settings.ofVariables lookup with
  | .error e => (refusal e, .ended 1 w)
  | .ok s =>
    let w := { w with server := .statusFile (Path.ofText s.statusFile) }
    match Agent.new s 0 w with
    | (.error e, w) => (banner s ++ [failure e], .ended 1 w)
    | (.ok agent, w) =>
      match Agent.awaitStartup { part := agent, world := w } with
      | (.error e, t) => (banner s ++ [failure e], .ended 1 t.world)
      | (.ok _, t) => (banner s, .ready t)

end EdgeAgent.Console
