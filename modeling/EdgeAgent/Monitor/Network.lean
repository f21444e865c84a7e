import EdgeAgent.Monitor.Basic
import EdgeAgent.Number.Decimal

/-! # Network

The addresses of the network interfaces, how much each has sent and received,
and which one leads to the rest of the world. -/

namespace EdgeAgent

structure Traffic where
  interface : String
  transmitted : Nat
  received : Nat
deriving DecidableEq, Repr

structure NetworkReport where
  /-- The interface of the default route. -/
  gateway : Option String := none
  /-- The first address of version four of that interface. -/
  localAddress : Option String := none
  interfaces : Table (List Address) := Table.empty
  traffic : List Traffic := []

namespace NetworkReport

instance : Inhabited NetworkReport := ⟨{}⟩

def everywhere : String := "00000000"

def routeInterface? (line : String) : Option String :=
  match Text.words line with
  | interface :: destination :: _ => if destination = everywhere then some interface else none
  | _ => none

/-- The interface of the default route; the first line of a table is its head. -/
def defaultRoute? (table : String) : Option String :=
  ((Text.lines table).drop 1).findSome? routeInterface?

def counter? (f : Files) (p : Path) : Option Nat :=
  match f.read p with
  | .ok s => (Decimal.natural Decimal.maxWord (Text.trim s)).toOption
  | .error _ => none

/-- The traffic of the interfaces that have both counters, by their names. -/
def readTraffic (f : Files) (root : Path) : List Traffic :=
  let folder := root ++ ["sys", "class", "net"]
  match f.list folder with
  | .error _ => []
  | .ok names => names.filterMap fun name => do
    let statistics := folder ++ [name, "statistics"]
    let received ← counter? f (statistics ++ ["rx_bytes"])
    let transmitted ← counter? f (statistics ++ ["tx_bytes"])
    return ⟨name, transmitted, received⟩

def readGateway (f : Files) (root : Path) : Option String :=
  match f.read (root ++ ["proc", "net", "route"]) with
  | .ok table => defaultRoute? table
  | .error _ => none

def read (w : World) : NetworkReport :=
  let gateway := readGateway w.files w.hostRoot
  { gateway
    localAddress := do
      let addresses ← w.host.interfaces.find? (← gateway)
      return (← addresses.find? (·.isV4)).text
    interfaces := w.host.interfaces
    traffic := readTraffic w.files w.hostRoot }

def interfaceJson (name : String) (addresses : List Address) : Json :=
  .ofDocument <| Table.ofList
    [("interface", .str name),
     ("ips", .arr (addresses.map fun a => .ofDocument (Table.ofList [("address", .str a.text)])))]

def trafficJson (t : Traffic) : Json :=
  .ofDocument <| Table.ofList
    [("interface", .str t.interface), ("bytes-transmitted", .ofNat t.transmitted),
     ("bytes-received", .ofNat t.received)]

def populate (r : NetworkReport) (p : Payload) : Payload :=
  let interfaces := r.interfaces.rows.map fun (name, addresses) => interfaceJson name addresses
  let network : Document := Table.ofList
    [("ips", .ofDocument (Table.ofList [("local", .str (r.localAddress.getD ""))])),
     ("interfaces", .arr interfaces)]
  let network := match r.gateway with
    | some g => network.insert "default-gw" (.str g)
    | none => network
  let p := (p.put .network (.ofDocument network)).set .ip r.localAddress
  if r.traffic.isEmpty then p
  else
    let traffic := Json.arr (r.traffic.map trafficJson)
    p.put .resources (.ofDocument (Table.ofList [("net-stats", traffic)]))

end NetworkReport
end EdgeAgent
