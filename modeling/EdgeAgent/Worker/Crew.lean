import EdgeAgent.Worker.Basic

/-! # Crews

A crew holds workers under their names, starts and stops them together, and sets
up anew those that do not run. -/

namespace EdgeAgent

structure Crew (υ π α : Type) where
  workers : Table (Worker υ π α) := Table.empty
  /-- How long each worker's end is waited for. -/
  stopTimeout : Nat := Duration.ofSeconds 10

namespace Crew

variable {υ π α : Type} [Craft υ π α]

def minPeriod : Nat := Duration.ofSeconds 15

/-- Adds a worker; the answer is false, and nothing happens, if there is one of
the name. -/
def add [BEq α] (c : Crew υ π α) (name : String) (param : π) (actions : List α) (period : Nat)
    (delay : Worker.Delay) (now : Nat) (w : World) : Except WorkerError Bool × Crew υ π α × World :=
  if c.workers.contains name then (.ok false, c, w)
  else
    match Worker.new name param actions period delay now w with
    | (.error e, w) => (.error e, c, w)
    | (.ok s, w) =>
      let s := { s with stopTimeout := c.stopTimeout }
      (.ok true, { c with workers := c.workers.insert name s }, w)

def start (c : Crew υ π α) (now : Nat) : Crew υ π α :=
  { c with workers := c.workers.mapRows fun _ s => s.start now }

def stop (c : Crew υ π α) : Crew υ π α :=
  { c with workers := c.workers.mapRows fun _ s => s.stop }

def hasEnded (c : Crew υ π α) : Bool := c.workers.values.all (!·.isAlive)

/-- Takes note of the workers that have ended; the answer tells whether all
have. -/
def confirmEnd (c : Crew υ π α) : Bool × Crew υ π α :=
  (c.hasEnded, { c with workers := c.workers.mapRows fun _ s => s.confirmEnd.2 })

/-- Sets up anew the workers among some rows that do not run, and starts them;
also counts them. One whose unit cannot be built stays as it is. -/
def healRows (now : Nat) : List (String × Worker υ π α) → Table (Worker υ π α) → World →
    Nat × Table (Worker υ π α) × World
  | [], workers, w => (0, workers, w)
  | (name, s) :: rest, workers, w =>
    if s.isRunning then healRows now rest workers w
    else
      match s.reset none true now w with
      | (.error _, w) => healRows now rest workers w
      | (.ok s, w) =>
        let (n, workers, w) := healRows now rest (workers.insert name s) w
        (n + 1, workers, w)

def heal (c : Crew υ π α) (now : Nat) (w : World) : Nat × Crew υ π α × World :=
  let (n, workers, w) := healRows now c.workers.rows c.workers w
  (n, { c with workers }, w)

/-- Gives a worker another period, unless it is unknown or the period too
short. -/
def editPeriod (c : Crew υ π α) (name : String) (period : Nat) : Bool × Crew υ π α :=
  if c.workers.contains name && decide (minPeriod ≤ period) then
    (true, { c with workers := c.workers.modify name fun s => s.setPeriod period })
  else (false, c)

def modify (c : Crew υ π α) (name : String) (f : Worker υ π α → Worker υ π α) : Crew υ π α :=
  { c with workers := c.workers.modify name f }

def isRunning (c : Crew υ π α) (name : String) : Bool :=
  match c.workers.find? name with
  | some s => s.isRunning
  | none => false

def summary (c : Crew υ π α) (now : Nat) : List Worker.Summary :=
  c.workers.values.map (·.summary now)

/-! ## Turns -/

variable [Timed υ]

def nextWorker? (c : Crew υ π α) (now : Nat) : Option (String × Timer) :=
  Timer.firstRow (fun s => s.due now) c.workers.rows

def due (c : Crew υ π α) (now : Nat) : Option Timer := (c.nextWorker? now).map (·.2)

def turn (c : Crew υ π α) (now : Nat) (w : World) : Crew υ π α × World :=
  match c.nextWorker? now with
  | none => (c, w)
  | some (name, _) =>
    match c.workers.find? name with
    | none => (c, w)
    | some s =>
      let (s, w) := s.turn now w
      ({ c with workers := c.workers.insert name s }, w)

instance : Timed (Crew υ π α) := ⟨due, turn⟩

/-! ## Waiting -/

/-- Asks every worker to end, and waits for all of them at once; the answer
tells whether all have ended. -/
def awaitStop (t : Timeline (Crew υ π α)) : Bool × Timeline (Crew υ π α) :=
  let t := t.act fun c _ w => (c.stop, w)
  (t.awaitAtMost hasEnded t.part.stopTimeout).ask fun c _ w =>
    let (ended, c) := c.confirmEnd
    (ended, c, w)

def hasLent (c : Crew υ π α) (name : String) : Bool :=
  match c.workers.find? name with
  | some s => s.isLent
  | none => true

def awaitUnit (t : Timeline (Crew υ π α)) (name : String) : Option υ × Timeline (Crew υ π α) :=
  let t := (t.act fun c now w => (c.modify name fun s => s.borrow now, w)).await (·.hasLent name)
  ((t.part.workers.find? name).map (·.unit),
   t.act fun c now w => (c.modify name fun s => s.giveBack now, w))

end Crew
end EdgeAgent
