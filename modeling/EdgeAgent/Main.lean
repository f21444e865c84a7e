import EdgeAgent.Console
import EdgeAgent.Host.Reports
import Std.Async.Signal
import Std.Async.System

/-! # The program

The agent on a real host. Before the agent takes its turns, the files and figures
that it may ask for are read; after them, the files that it has changed are
written. All that is decided is decided by the agent. -/

namespace EdgeAgent.Program

/-! ## Files -/

/-- Where a path is on the host. Paths below a directory that was given relative
to the current one stay relative. -/
def locate (s : Settings) (p : Path) : String :=
  let relative (root : String) : Bool := !root.startsWith "/" && (Path.ofText root).isPrefixOf p
  if relative s.sharedVolume || relative s.hostRoot then Path.text p else "/" ++ Path.text p

def text? (name : String) : IO (Option String) := do
  try return String.fromUTF8? (← IO.FS.readBinFile name) catch _ => return none

def text (name : String) : IO String := return (← text? name).getD ""

def namesIn (name : String) : IO (Option (List String)) := do
  try
    let folder ← IO.FS.realPath name
    if ← folder.isDir then return some ((← folder.readDir).toList.map (·.fileName))
    else return none
  catch _ => return none

/-- Reads what a path leads to into the tree, directories down to a depth. -/
def load (s : Settings) : Nat → Path → Files → IO Files
  | depth, p, f => do
    match ← namesIn (locate s p) with
    | some names =>
      let f := match f.createDirectories p with
        | .ok f => f
        | .error _ => f
      match depth with
      | 0 => return f
      | depth + 1 => names.foldlM (fun f name => load s depth (p ++ [name]) f) f
    | none =>
      try
        let bytes ← IO.FS.readBinFile (locate s p)
        match (do (← f.createDirectories p.dropLast).put p (String.fromUTF8? bytes)) with
        | .ok f => return f
        | .error _ => return f
      catch _ => return f

def loadAll (s : Settings) : IO Files := do
  let host := Path.ofText s.hostRoot
  let nets := host ++ ["sys", "class", "net"]
  let f ← load s 2 (Temperatures.folder host) Files.empty
  let f ← load s 4 (host ++ ["sys", "bus", "i2c", "drivers"]) f
  let f ← load s 0 (host ++ ["proc", "net", "route"]) f
  let f ← ((← namesIn (locate s nets)).getD []).foldlM
    (fun f name => load s 1 (nets ++ [name, "statistics"]) f) f
  load s 1 (Path.ofText s.sharedVolume) f

/-- Writes the files that differ between two trees, each beside its place first,
and removes those that are gone. -/
def store (s : Settings) (old new : Files) : IO Unit := do
  for (p, node) in new.nodes do
    if old.node? p != some node then
      match node with
      | .directory => IO.FS.createDirAll (locate s p)
      | .file (some text) =>
        IO.FS.createDirAll (locate s p.dropLast)
        let draft := locate s p ++ ".part"
        IO.FS.writeFile draft text
        IO.FS.rename draft (locate s p)
      | .file none => pure ()
  for (p, node) in old.nodes do
    if (new.node? p).isNone then
      match node with
      | .file _ => IO.FS.removeFile (locate s p)
      | .directory => pure ()

/-! ## Figures -/

def probe : IO Host := do
  let cores := (← Std.Async.System.getCPUInfo).size
  let addresses ← Std.Net.interfaceAddresses
  let interfaces := addresses.foldl (fun (t : Table (List Address)) a =>
    let known := (t.find? a.name).getD []
    let address : Address := match a.address with
      | .v4 x => ⟨x.toString, true⟩
      | .v6 x => ⟨x.toString, false⟩
    t.insert a.name (known ++ [address])) Table.empty
  let host : Host := { cores, interfaces }
  return ((host.withLoads (← text "/proc/loadavg")).withMemory (← text "/proc/meminfo")).withBoot
    (← text "/proc/stat")

def date : IO Timestamp := do
  return Timestamp.ofTotal (← Std.Time.Timestamp.now).toNanosecondsSinceUnixEpoch.val

def refresh (s : Settings) (w : World) : IO World := do
  return { w with files := ← loadAll s, host := ← probe, date := ← date }

def engine : IO Engine := do
  let system ← Std.Async.System.getSystemInfo
  return Engine.standalone Console.version (Host.systemName (← text "/etc/os-release"))
    system.machine (some (← Std.Async.System.getHostName))

/-! ## Running -/

/-- How long the program sleeps at most, in milliseconds, before it looks again
whether it was interrupted. -/
def nap : Nat := 200

/-- Lets the agent take its turns as they become due, until it has left its
loop. The clock was started at the instant `began`. -/
partial def live (s : Settings) (interrupted : IO Bool) (began : Nat) (t : Timeline Agent) :
    IO (Timeline Agent) := do
  let world ← refresh s t.world
  let t := { t with world }
  let t := if ← interrupted then t.act fun a _ w => (a.stop, w) else t
  let now := (← IO.monoNanosNow) - began
  let t := (t.advance (now - t.now)).settle
  store s world.files t.world.files
  if t.part.hasLeft then return t
  else
    let wait := match Timed.due t.part t.now with
      | some timer => min nap ((timer.rings - now) / 1000000 + 1)
      | none => nap
    IO.sleep wait.toUInt32
    live s interrupted began t

def run : IO UInt32 := do
  let values ← Settings.names.mapM fun name => do return (name, ← IO.getEnv name)
  let lookup (name : String) : Option String := (values.lookup name).join
  match Settings.ofVariables lookup with
  | .error e =>
    (Console.refusal e).forM fun line => IO.eprintln line
    return 1
  | .ok s =>
    let world ← refresh s { engine := ← engine }
    let began ← IO.monoNanosNow
    let (told, progress) := Console.begin lookup world
    told.forM fun line => IO.eprintln line
    match progress with
    | .ended code reached =>
      store s world.files reached.files
      return code.toUInt32
    | .ready t =>
      store s world.files t.world.files
      let signal ← Std.Async.Signal.Waiter.mk .sigint false
      let received ← signal.wait
      let t ← live s (IO.hasFinished received) began (t.act fun a now w => (a.start now w, w))
      let (_, t) := Agent.awaitShutdown t
      store s t.world.files t.world.files
      return 0

end EdgeAgent.Program

def main : IO UInt32 := EdgeAgent.Program.run
