import EdgeAgent.Error
import EdgeAgent.Payload.Changes

/-! # The status file

Without a server the status document of an edge is kept in a file. The document
is written beside the file first and then moved onto it, so a step that fails
leaves the file as it was. -/

namespace EdgeAgent.StatusFile

def read (f : Files) (path : Path) : Except ServerError Document :=
  match f.read path with
  | .ok s => (Json.document s).mapError .undecodable
  | .error .notFound => .ok Table.empty
  | .error e => .error (.storage e)

def draftPath (path : Path) : Path := Path.withExtension path "json.tmp"

inductive Step where
  | directories
  | draft
  | move
deriving DecidableEq, Repr

/-- What a file system may hold against the steps for reasons of its own. -/
abbrev Refusal := Step → Option FileError

def Refusal.never : Refusal := fun _ => none

def Step.take (s : Step) (refusal : Refusal) (f : Files) (act : Files → Except FileError Files) :
    Except ServerError Unit × Files :=
  match refusal s with
  | some e => (.error (.storage e), f)
  | none =>
    match act f with
    | .error e => (.error (.storage e), f)
    | .ok f => (.ok (), f)

/-- The tree after writing, and whether that succeeded. When a step fails, those
before it have been taken. -/
def write (refusal : Refusal) (f : Files) (path : Path) (d : Document) :
    Except ServerError Unit × Files :=
  match Step.directories.take refusal f (·.createDirectories path.dropLast) with
  | (.error e, f) => (.error e, f)
  | (.ok _, f) =>
    match Step.draft.take refusal f (·.write (draftPath path) (Json.ofDocument d).prettyText) with
    | (.error e, f) => (.error e, f)
    | (.ok _, f) => Step.move.take refusal f (·.rename (draftPath path) path)

/-- Takes a telemetry report over: deleted names are removed, then the sent
values are set. -/
def telemetry (refusal : Refusal) (f : Files) (path : Path) (data : Document)
    (delete : List String) : Except ServerError Unit × Files :=
  match read f path with
  | .error e => (.error e, f)
  | .ok d => write refusal f path (Document.apply d data delete)

end EdgeAgent.StatusFile
