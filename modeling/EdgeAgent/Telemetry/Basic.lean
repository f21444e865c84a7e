import EdgeAgent.Monitor.Station
import EdgeAgent.Telemetry.Exclusion

/-! # Telemetry

Telemetry keeps a station for every monitor that is enabled and not excluded,
collects their fragments into one payload, and sets up anew the stations whose
loop has ended. -/

namespace EdgeAgent

structure Telemetry (μ : Type) where
  /-- The monitors that can be built. -/
  registry : List (Registration μ)
  period : Nat
  stations : Table (Station μ)
  /-- What was collected last. -/
  last : Payload := {}
  /-- The stations that still have to make a pass before all are started; the
  pass of the first one is asked for. -/
  gathering : List String := []

namespace Telemetry

variable {μ : Type} [Monitor μ]

def moduleName : String := "Telemetry"

/-- Builds the monitors that are not excluded, and keeps the enabled ones. -/
def setUp (excluded : List String) (period now : Nat) :
    List (Registration μ) → Table (Station μ) → World → Table (Station μ) × World
  | [], stations, w => (stations, w)
  | r :: rest, stations, w =>
    if Exclusion.excludes excluded r.name then setUp excluded period now rest stations w
    else
      let (m, w) := r.build w
      let s := Station.new m period now
      setUp excluded period now rest (if s.enabled then stations.insert r.name s else stations) w

def new (registry : List (Registration μ)) (excluded : Option String) (period now : Nat)
    (w : World) : Telemetry μ × World :=
  let (stations, w) := setUp (Exclusion.ofSetting excluded) period now registry Table.empty w
  ({ registry, period, stations }, w.say moduleName .starting "")

def setPeriod (t : Telemetry μ) (period : Nat) : Telemetry μ :=
  { t with period, stations := t.stations.mapRows fun _ s => s.setPeriod period }

def modify (t : Telemetry μ) (name : String) (f : Station μ → Station μ) : Telemetry μ :=
  { t with stations := t.stations.modify name f }

def modifyIn (t : Telemetry μ) (name : String) (w : World)
    (f : Station μ → World → Station μ × World) : Telemetry μ × World :=
  match t.stations.find? name with
  | none => (t, w)
  | some s =>
    let (s, w) := f s w
    ({ t with stations := t.stations.insert name s }, w)

def stopAll (t : Telemetry μ) : Telemetry μ :=
  { t with stations := t.stations.mapRows fun _ s => s.stop }

/-! ## One round -/

def askFirst (t : Telemetry μ) (now : Nat) (w : World) : Telemetry μ × World :=
  match t.gathering with
  | [] => (t, w)
  | name :: _ => t.modifyIn name w fun s w => s.request .outside now w

/-- Begins a round: every station makes a pass, one after the other, and is
started after it. -/
def gather (t : Telemetry μ) (now : Nat) (w : World) : Telemetry μ × World :=
  { t with gathering := t.stations.keys }.askFirst now w

def canGoOn (t : Telemetry μ) : Bool :=
  match t.gathering with
  | [] => false
  | name :: _ =>
    match t.stations.find? name with
    | some s => !s.isAwaited
    | none => true

/-- Starts the first station of the round, and goes on to the next one. -/
def goOn (t : Telemetry μ) (now : Nat) (w : World) : Telemetry μ × World :=
  match t.gathering with
  | [] => (t, w)
  | name :: rest =>
    { t.modify name fun s => s.start now with gathering := rest }.askFirst now w

/-! ## Collecting -/

/-- One more station is collected: its fragment is merged, or the report gets a
line that there is none. A disabled one has nothing to say. -/
def collectStation (acc : Payload × String) (s : Station μ) : Payload × String :=
  if !s.enabled then acc
  else
    match s.slot.pending with
    | some fragment => (acc.1.merge fragment, acc.2)
    | none => (acc.1, acc.2 ++ "\tMonitor " ++ s.name ++ " not sending metrics\n")

/-- Takes the fragments out of the slots, in the order of the stations' names,
and merges them; the report is on those that left none. -/
def collect (t : Telemetry μ) : (Payload × String) × Telemetry μ :=
  (t.stations.values.foldl collectStation ({}, ""),
   { t with stations := t.stations.mapRows fun _ s =>
      if s.enabled then { s with slot := s.slot.take.2 } else s })

def snapshot (t : Telemetry μ) (w : World) : Payload × Telemetry μ × World :=
  let ((p, report), t) := t.collect
  let p := p.put .currentTime w.date.textInSeconds
  (p, { t with last := p }, w.say moduleName .running report)

/-! ## Health -/

/-- Sets the stations up anew whose loop has not been started or has ended, in
the order of the registry, and starts them; also counts them. -/
def reviveAll (period now : Nat) :
    List (Registration μ) → Table (Station μ) → World → Nat × Table (Station μ) × World
  | [], stations, w => (0, stations, w)
  | r :: rest, stations, w =>
    match stations.find? r.name with
    | none => reviveAll period now rest stations w
    | some s =>
      if !s.enabled || s.isRunning then reviveAll period now rest stations w
      else
        let (m, w) := r.build w
        let fresh := (Station.new m period now).start now
        let (n, stations, w) := reviveAll period now rest (stations.insert r.name fresh) w
        (n + 1, stations, w)

def checkHealth (t : Telemetry μ) (now : Nat) (w : World) : Nat × Telemetry μ × World :=
  let (n, stations, w) := reviveAll t.period now t.registry t.stations w
  (n, { t with stations }, w)

def check (t : Telemetry μ) (now : Nat) (w : World) : Telemetry μ × World :=
  (t.checkHealth now (w.say moduleName .running "")).2

/-! ## Turns -/

def nextStation? (t : Telemetry μ) (now : Nat) : Option (String × Timer) :=
  Timer.firstRow (fun s => s.due now) t.stations.rows

def due (t : Telemetry μ) (now : Nat) : Option Timer :=
  if t.canGoOn then some (.atOnce now) else (t.nextStation? now).map (·.2)

def turn (t : Telemetry μ) (now : Nat) (w : World) : Telemetry μ × World :=
  if t.canGoOn then t.goOn now w
  else
    match t.nextStation? now with
    | some (name, _) => t.modifyIn name w fun s w => s.turn now w
    | none => (t, w)

instance : Timed (Telemetry μ) := ⟨due, turn⟩

def awaitGather (t : Timeline (Telemetry μ)) : Timeline (Telemetry μ) :=
  (t.act fun p now w => p.gather now w).await (·.gathering.isEmpty)

end Telemetry
end EdgeAgent
