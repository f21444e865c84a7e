import EdgeAgent.Status.Report

/-! # The status board

Modules post reports without waiting: a report that finds no room is lost. An
update takes the waiting reports over, forgets the old ones, and derives the
state of the edge and one note for each module that is left. -/

namespace EdgeAgent

/-- The reports posted and held, and what the last update made of them. -/
structure Board where
  /-- Posted and not yet taken over, the oldest first. -/
  waiting : List Report := []
  /-- The last report of each module. -/
  held : Table Report := Table.empty
  state : EdgeState := .unknown
  notes : List String := []

namespace Board

instance : Inhabited Board := ⟨{}⟩

def capacity : Nat := 256

def lifetime : Nat := 3600 * 1000000000

/-- Posts a report; it is lost if too many are waiting. -/
def post (b : Board) (r : Report) : Board :=
  if b.waiting.length < capacity then { b with waiting := b.waiting ++ [r] } else b

def say (b : Board) (date : Timestamp) (origin : String) (status : ModuleStatus) (note : String) :
    Board :=
  b.post ⟨origin, status, date, note⟩

/-- Holds a report in place of the module's earlier one. -/
def hold (b : Board) (r : Report) : Board := { b with held := b.held.insert r.origin r }

def forget (b : Board) (origin : String) : Board := { b with held := b.held.erase origin }

/-! ## Folding -/

/-- The state after one more module. Trouble stays; a module that works, or has
reason not to, makes an edge without trouble operational. -/
def addStatus (s : EdgeState) : ModuleStatus → EdgeState
  | .failing | .failed => .degraded
  | .starting | .running | .stopped => if s = .degraded then s else .operational
  | .warning | .unknown => s

def foldState (statuses : List ModuleStatus) : EdgeState :=
  statuses.foldl addStatus .unknown

def padRight (width : Nat) (s : String) : String :=
  s ++ String.ofList (List.replicate (width - s.length) ' ')

def ageInSeconds (now : Timestamp) (r : Report) : Nat :=
  ((now.total - r.date.total) / 1000000000).toNat

def noteOf (now : Timestamp) (r : Report) : String :=
  padRight 16 r.origin ++ " - " ++ padRight 6 (toString (ageInSeconds now r)) ++ "s: " ++
    padRight 9 r.status.name ++ (if r.note.isEmpty then "" else " - " ++ r.note)

/-- The report is not too old. -/
def isFresh (now : Timestamp) (r : Report) : Bool :=
  decide (now.total - r.date.total ≤ (lifetime : Int))

/-- Takes the waiting reports over, the last one of a module winning. -/
def drain (b : Board) : Board :=
  { b with held := b.waiting.foldl (fun t r => t.insert r.origin r) b.held, waiting := [] }

def update (b : Board) (now : Timestamp) : Board :=
  let held := b.drain.held.filter fun _ r => isFresh now r
  { waiting := []
    held
    state := foldState (held.values.map (·.status))
    notes := held.rows.map fun (name, r) => noteOf now { r with origin := name } }

/-- Posts the engine's errors, if it reports any, and updates. -/
def review (b : Board) (now : Timestamp) (errors : List String) : Board :=
  let b := if errors.isEmpty then b else b.say now "COE" .failing ("\n".intercalate errors)
  b.update now

end Board
end EdgeAgent
