import EdgeAgent.Monitor.Temperature

/-! # Power consumption

Some boards measure the power rails behind an I2C driver. Which folders hold the
channels of a board is known for each kind of board; a board is recognised by
its addresses. -/

namespace EdgeAgent

/-- A kind of board: the addresses that tell it, and the folders of its
channels. -/
structure PowerBoard where
  addresses : List String
  folders : List Path
deriving DecidableEq, Repr

/-- A driver, how many channels a folder has, and the boards it serves. -/
structure PowerDriver where
  name : String
  channels : Nat
  boards : List PowerBoard
deriving DecidableEq, Repr

structure PowerReading where
  value : Double
  unit : String
deriving DecidableEq, Repr

structure PowerReadings where
  /-- The drivers that were there at the beginning. -/
  drivers : List PowerDriver := []
  /-- The last reading of each metric. -/
  metrics : Table PowerReading := Table.empty

namespace PowerReadings

instance : Inhabited PowerReadings := ⟨{}⟩

private def device (address : String) (n : Nat) : Path := [address, "iio:device" ++ toString n]

def knownDrivers : List PowerDriver :=
  [{ name := "ina3221x"
     channels := 3
     boards :=
       [⟨["1-0040", "1-0041"], [device "1-0040" 0, device "1-0041" 1]⟩,
        ⟨["7-0040"], [device "7-0040" 0]⟩,
        ⟨["6-0040"], [device "6-0040" 0]⟩,
        ⟨["1-0040"], [device "1-0040" 0]⟩,
        ⟨["1-0042", "1-0043"], [device "1-0042" 2, device "1-0043" 3]⟩,
        ⟨["0-0040", "0-0041"], [device "0-0040" 0, device "0-0041" 1]⟩,
        ⟨["0-0042", "0-0043"], [device "0-0042" 2, device "0-0043" 3]⟩] }]

def driverFolder (root : Path) (d : PowerDriver) : Path :=
  root ++ ["sys", "bus", "i2c", "drivers", d.name]

def new (w : World) : PowerReadings where
  drivers := knownDrivers.filter fun d => w.files.exists? (driverFolder w.hostRoot d)

def channelFiles (channel : Nat) : List (String × String × String) :=
  let n := toString channel
  [("in_current" ++ n ++ "_input", "current", "mA"),
   ("in_voltage" ++ n ++ "_input", "voltage", "mV"),
   ("in_power" ++ n ++ "_input", "power", "mW"),
   ("crit_current_limit_" ++ n, "critical_current_limit", "mA")]

/-- The readings of a channel that has a rail and all its files. -/
def readChannel (f : Files) (folder : Path) (channel : Nat) : List (String × PowerReading) :=
  match f.firstWord? (folder ++ ["rail_name_" ++ toString channel]) with
  | none => []
  | some rail =>
    let files := channelFiles channel
    if files.all fun (file, _) => f.exists? (folder ++ [file]) then
      files.filterMap fun (file, measure, unit) => do
        let value ← Decimal.double? (← f.firstWord? (folder ++ [file]))
        return (rail ++ "_" ++ measure, ⟨value, unit⟩)
    else []

def readDriver (f : Files) (root : Path) (d : PowerDriver) : List (String × PowerReading) :=
  let folder := driverFolder root d
  match f.list folder with
  | .error _ => []
  | .ok found => (d.boards.filter fun b => b.addresses.all found.contains).flatMap fun b =>
    b.folders.flatMap fun channels =>
      (List.range d.channels).flatMap fun n => readChannel f (folder ++ channels) n

/-- Reads again; metrics that cannot be read keep their last reading. -/
def update (r : PowerReadings) (w : World) : PowerReadings :=
  { r with metrics := r.metrics.insertAll (r.drivers.flatMap (readDriver w.files w.hostRoot)) }

def readingJson (metric : String) (r : PowerReading) : Json :=
  .ofDocument <| Table.ofList
    [("metric-name", .str metric), ("energy-consumption", .ofDouble r.value), ("unit", .str r.unit)]

def toList (r : PowerReadings) : List Json := r.metrics.rows.map fun (m, x) => readingJson m x

def populate (r : PowerReadings) (p : Payload) : Payload :=
  if r.metrics.isEmpty then p
  else p.put .resources (.ofDocument (Table.ofList [("power-consumption", .arr r.toList)]))

end PowerReadings
end EdgeAgent
