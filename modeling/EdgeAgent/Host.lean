import EdgeAgent.Data.Table
import EdgeAgent.Number.Double
import EdgeAgent.Time.Timestamp

/-! # The host

What the machine under an edge tells about itself at the moment. -/

namespace EdgeAgent

structure Address where
  text : String
  isV4 : Bool
deriving DecidableEq, Repr

structure Disk where
  device : String
  /-- Bytes. -/
  capacity : Nat
  used : Nat
deriving DecidableEq, Repr

structure Host where
  cores : Nat := 1
  /-- Averages over one, five and fifteen minutes. -/
  load1 : Double := Double.ofNat 0
  load5 : Double := Double.ofNat 0
  load15 : Double := Double.ofNat 0
  /-- Bytes. -/
  memory : Nat := 1048576
  usedMemory : Nat := 0
  disks : List Disk := []
  interfaces : Table (List Address) := Table.empty
  /-- The sensors of a host that has no directory for them, in degrees Celsius. -/
  sensors : List (String × Double) := []
  bootDate : Timestamp := ⟨0, 0⟩

instance : Inhabited Host := ⟨{}⟩

end EdgeAgent
