import EdgeAgent.Files
import EdgeAgent.Json.Complaint
import EdgeAgent.Time.Duration

/-! # Errors

Each error is a cause; its wording is one function of it. The errors of all
parts meet in `AgentError`, which names the part in front. -/

namespace EdgeAgent

inductive SettingsError where
  | missing (key hint : String)
  | invalid (key message : String)
deriving DecidableEq, Repr

def SettingsError.message : SettingsError → String
  | .missing key hint => "Missing required configuration: " ++ key ++ ". " ++ hint
  | .invalid key message => "Invalid configuration value for " ++ key ++ ": " ++ message

inductive AgendaError where
  | empty
deriving DecidableEq, Repr

def AgendaError.message : AgendaError → String
  | .empty => "No actions registered"

/-- How an action of a unit fails. A failure that was given a context shows the
context instead of its own text. -/
inductive UnitError where
  | exit (reason : String)
  | failed (text : String) (context : Option String)
deriving DecidableEq, Repr

namespace UnitError

def message : UnitError → String
  | .exit reason => "Exit requested: " ++ reason
  | .failed text context => context.getD text

def isExit : UnitError → Bool
  | .exit _ => true
  | .failed .. => false

def kind : UnitError → String
  | .exit _ => "ExitRequested"
  | .failed .. => "Failed"

end UnitError

inductive FatalReason where
  | exitRequested
  | tooManyErrors
deriving DecidableEq, Repr

def FatalReason.message : FatalReason → String
  | .exitRequested => "exit requested"
  | .tooManyErrors => "too many errors"

inductive WorkerError where
  | fatal (worker : String) (reason : FatalReason) (causes : List String)
  | build (worker : String) (source : UnitError)
  | shortPeriod (worker : String) (period : Nat)
  | stopTimeout (worker : String) (timeout : Nat)
deriving DecidableEq, Repr

def WorkerError.message : WorkerError → String
  | .fatal worker reason causes =>
    "Worker " ++ worker ++ " failed (" ++ reason.message ++ ") after " ++
      toString causes.length ++ " errors"
  | .build worker source => "Worker " ++ worker ++ " could not build its unit: " ++ source.message
  | .shortPeriod worker period =>
    "Worker " ++ worker ++ " period " ++ Duration.text period ++ " is too short to schedule"
  | .stopTimeout worker timeout =>
    "Worker " ++ worker ++ " stop not confirmed within " ++ Duration.text timeout

inductive EngineError where
  | failed (message : String)
  | unsupported (operation : String)
deriving DecidableEq, Repr

def EngineError.message : EngineError → String
  | .failed m => "COE request failed: " ++ m
  | .unsupported op => "Operation " ++ op ++ " not supported by this orchestrator"

/-- How a request to the server fails: it is refused, a text or value cannot be
decoded, or the file system fails. -/
inductive ServerError where
  | refused (operation reason : String)
  | undecodable (c : Complaint)
  | storage (e : FileError)
deriving DecidableEq, Repr

namespace ServerError

def message : ServerError → String
  | .refused operation reason => "Nuvla request " ++ operation ++ " failed: " ++ reason
  | .undecodable c => "JSON error: " ++ c.message
  | .storage e => "IO error: " ++ e.message

/-- The error as a term of its parts. -/
def form : ServerError → String
  | .refused operation reason =>
    "RequestFailed \x7b operation: " ++ Text.Quoted.quote operation ++ ", reason: " ++
      Text.Quoted.quote reason ++ " \x7d"
  | .undecodable c => "Json(" ++ c.form ++ ")"
  | .storage e => "Io(" ++ e.form ++ ")"

end ServerError

inductive AgentError where
  | settings (e : SettingsError)
  | agenda (e : AgendaError)
  | worker (e : WorkerError)
  | engine (e : EngineError)
  | server (e : ServerError)
deriving DecidableEq, Repr

namespace AgentError

/-- The text of the wrapped error. -/
def detail : AgentError → String
  | .settings e => e.message
  | .agenda e => e.message
  | .worker e => e.message
  | .engine e => e.message
  | .server e => e.message

def source? : AgentError → Option String
  | .worker (.build _ source) => some source.message
  | _ => none

def message (e : AgentError) : String :=
  (match e with
    | .settings _ => "Configuration error: "
    | .agenda _ => "Schedule error: "
    | .worker _ => "Worker error: "
    | .engine _ => "COE error: "
    | .server _ => "Nuvla error: ") ++ e.detail

end AgentError
end EdgeAgent
