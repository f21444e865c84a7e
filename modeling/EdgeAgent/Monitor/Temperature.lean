import EdgeAgent.Monitor.Basic
import EdgeAgent.Number.Decimal

/-! # Temperatures

A thermal zone is a directory with the type of the zone in one file and its
temperature, in thousandths of a degree Celsius, in another. A host without such
directories is asked for its sensors. -/

namespace EdgeAgent

def Files.firstWord? (f : Files) (p : Path) : Option String :=
  match f.read p with
  | .ok s => (Text.words s).head?
  | .error _ => none

/-- The last temperature read of each zone, in degrees Celsius. -/
structure Temperatures where
  zones : Table Double := Table.empty

namespace Temperatures

instance : Inhabited Temperatures := ⟨{}⟩

def folder (root : Path) : Path := root ++ ["sys", "devices", "virtual", "thermal"]

def zone? (f : Files) (p : Path) : Option (String × Double) := do
  let zone ← f.firstWord? (p ++ ["type"])
  let value ← f.firstWord? (p ++ ["temp"])
  return (zone, (← Decimal.double? value) / Double.ofNat 1000)

def readZones (f : Files) (root : Path) : Except FileError (List (String × Double)) := do
  let names ← f.list (folder root)
  return (names.filter fun name => "thermal".toList.isPrefixOf name.toList).filterMap fun name =>
    zone? f (folder root ++ [name])

/-- Reads again; zones that cannot be read keep their last temperature. -/
def update (t : Temperatures) (w : World) : Except MonitorError Temperatures :=
  if w.files.exists? (folder w.hostRoot) then
    match readZones w.files w.hostRoot with
    | .ok zones => .ok ⟨t.zones.insertAll zones⟩
    | .error e => .error (.storage e)
  else .ok ⟨t.zones.insertAll w.host.sensors⟩

def zoneJson (zone : String) (value : Double) : Json :=
  .ofDocument (Table.ofList [("thermal-zone", .str zone), ("value", .ofDouble value)])

def toList (t : Temperatures) : List Json :=
  t.zones.rows.map fun (zone, value) => zoneJson zone value

def populate (t : Temperatures) (p : Payload) : Payload :=
  if t.zones.isEmpty then p else p.put .temperatures t.toList

end Temperatures
end EdgeAgent
