import EdgeAgent.Error
import EdgeAgent.Number.Decimal
import EdgeAgent.Text.Blank
import EdgeAgent.Text.Quoted

/-! # Settings

The settings of an agent, read from named variables. A blank variable counts as
unset. Periods are whole seconds above zero; of several bad ones the first in the
order of reading is reported, before a missing identity. -/

namespace EdgeAgent

def joinPath (base name : String) : String :=
  if name.startsWith "/" || base.isEmpty then name
  else if base.endsWith "/" then base ++ name
  else base ++ "/" ++ name

structure Settings where
  /-- Who the agent is; credentials may stand in for it. -/
  uuid : Option String := none
  endpoint : String := "nuvla.io"
  apiKey : Option String := none
  apiSecret : Option String := none
  /-- Monitors to leave out, separated by commas. -/
  excluded : Option String := none
  /-- The directory of the files that outlive the agent. -/
  sharedVolume : String := "/var/lib/nuvlaedge/"
  /-- Where the host's file system is mounted. -/
  hostRoot : String := "/rootfs"
  telemetryPeriod : Nat := Duration.ofSeconds 60
  heartbeatPeriod : Nat := Duration.ofSeconds 20
  stopTimeout : Nat := Duration.ofSeconds 10
  loggingDirectory : Option String := none
deriving DecidableEq, Repr

namespace Settings

def hasCredentials (s : Settings) : Bool := s.apiKey.isSome && s.apiSecret.isSome

/-- The agent knows who it is, or can prove it. -/
def hasIdentity (s : Settings) : Bool := s.uuid.isSome || s.hasCredentials

def statusFile (s : Settings) : String := joinPath s.sharedVolume "nuvlaedge-status.json"

def commissioningFile (s : Settings) : String := joinPath s.sharedVolume "commission_data.json"

/-! ## Reading -/

def names : List String :=
  ["NUVLAEDGE_UUID", "NUVLABOX_UUID", "NUVLA_ENDPOINT", "NUVLAEDGE_API_KEY",
   "NUVLAEDGE_API_SECRET", "NUVLAEDGE_EXCLUDED_MONITORS", "NUVLAEDGE_SHARED_DATA_VOLUME",
   "SHARED_DATA_VOLUME", "HOST_FS", "NUVLAEDGE_TELEMETRY_PERIOD", "NUVLAEDGE_HEARTBEAT_PERIOD",
   "NUVLAEDGE_WORKER_STOP_TIMEOUT", "NUVLAEDGE_LOGGING_DIRECTORY"]

/-- A variable that is set and not blank. -/
def present (lookup : String → Option String) (key : String) : Option String :=
  (lookup key).filter fun v => !Text.isBlankText v

/-- A period in whole seconds above zero, or the usual one if it is not given. -/
def period (key : String) (raw : Option String) (usual : Nat) : Except SettingsError Nat :=
  match raw with
  | none => .ok usual
  | some raw =>
    match Decimal.natural Decimal.maxWord (Text.trim raw) with
    | .error e =>
      .error (.invalid key (Text.Quoted.quote raw ++ " is not a number of seconds: " ++ e.message))
    | .ok 0 => .error (.invalid key "must be greater than zero")
    | .ok n => .ok (Duration.ofSeconds n)

def identityHint : String :=
  "Set NUVLAEDGE_UUID or provide NUVLAEDGE_API_KEY and NUVLAEDGE_API_SECRET"

def ofVariables (lookup : String → Option String) : Except SettingsError Settings := do
  let get := present lookup
  let usual : Settings := {}
  let telemetryPeriod ← period "NUVLAEDGE_TELEMETRY_PERIOD"
    (get "NUVLAEDGE_TELEMETRY_PERIOD") usual.telemetryPeriod
  let heartbeatPeriod ← period "NUVLAEDGE_HEARTBEAT_PERIOD"
    (get "NUVLAEDGE_HEARTBEAT_PERIOD") usual.heartbeatPeriod
  let stopTimeout ← period "NUVLAEDGE_WORKER_STOP_TIMEOUT"
    (get "NUVLAEDGE_WORKER_STOP_TIMEOUT") usual.stopTimeout
  let settings : Settings := {
    uuid := (get "NUVLAEDGE_UUID").or (get "NUVLABOX_UUID")
    endpoint := (get "NUVLA_ENDPOINT").getD usual.endpoint
    apiKey := get "NUVLAEDGE_API_KEY"
    apiSecret := get "NUVLAEDGE_API_SECRET"
    excluded := get "NUVLAEDGE_EXCLUDED_MONITORS"
    sharedVolume :=
      ((get "NUVLAEDGE_SHARED_DATA_VOLUME").or (get "SHARED_DATA_VOLUME")).getD usual.sharedVolume
    hostRoot := (get "HOST_FS").getD usual.hostRoot
    telemetryPeriod, heartbeatPeriod, stopTimeout
    loggingDirectory := get "NUVLAEDGE_LOGGING_DIRECTORY" }
  if settings.hasIdentity then return settings
  else .error (.missing "NUVLAEDGE_UUID" identityHint)

end Settings
end EdgeAgent
