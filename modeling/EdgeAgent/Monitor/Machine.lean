import EdgeAgent.Monitor.Basic

/-! # The machine and its deployment

What runs on the host, and how busy the host is. -/

namespace EdgeAgent

structure Deployment where
  version : Option String := none
  os : Option String := none
  architecture : Option String := none
  hostname : Option String := none
  lastBoot : Option String := none
  plugins : List String := []
  components : List String := []
deriving DecidableEq, Repr

namespace Deployment

instance : Inhabited Deployment := ⟨{}⟩

def read (w : World) : Deployment where
  version := w.engine.version
  os := some w.engine.os
  architecture := some w.engine.architecture
  hostname := w.engine.hostname
  lastBoot := some w.host.bootDate.textInSeconds
  plugins := w.engine.plugins
  components := w.engine.components

def populate (d : Deployment) (p : Payload) : Payload :=
  p.set .engineVersion d.version
    |>.set .operatingSystem d.os
    |>.set .architecture d.architecture
    |>.set .hostname d.hostname
    |>.set .lastBoot d.lastBoot
    |>.put .containerPlugins d.plugins
    |>.set .components (if d.components.isEmpty then none else some d.components)

end Deployment

/-- How busy the host is; nothing is known before the first look. -/
structure Load where
  host : Option Host := none

namespace Load

instance : Inhabited Load := ⟨{}⟩

def mebibyte : Nat := 1048576

def processorJson (h : Host) : Json :=
  .ofDocument <| Table.ofList
    [("capacity", .ofNat h.cores), ("load", .ofDouble h.load15), ("load-1", .ofDouble h.load1),
     ("load-5", .ofDouble h.load5), ("topic", .str "cpu")]

def memoryJson (h : Host) : Json :=
  .ofDocument <| Table.ofList
    [("capacity", .ofNat (h.memory / mebibyte)), ("used", .ofNat (h.usedMemory / mebibyte)),
     ("topic", .str "ram")]

def diskJson (d : Disk) : Json :=
  .ofDocument <| Table.ofList
    [("device", .str d.device), ("capacity", .ofNat d.capacity), ("used", .ofNat d.used),
     ("topic", .str "disks")]

def sections (l : Load) : List (String × Json) :=
  match l.host with
  | none => []
  | some h =>
    let disks := h.disks.filter fun d => 0 < d.capacity
    (if disks.isEmpty then [] else [("disks", .arr (disks.map diskJson))]) ++
      [("cpu", processorJson h), ("ram", memoryJson h)]

def populate (l : Load) (p : Payload) : Payload :=
  if l.sections.isEmpty then p
  else p.put .resources (.ofDocument (Table.ofList l.sections))

end Load
end EdgeAgent
