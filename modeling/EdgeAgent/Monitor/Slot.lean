import EdgeAgent.Payload.Codec

/-! # Slots

A monitor leaves its last fragment in a slot, where the next collection takes it
from. A fragment that is not taken in time is replaced by a newer one. -/

namespace EdgeAgent

structure Slot where
  pending : Option Payload := none

namespace Slot

instance : Inhabited Slot := ⟨{}⟩

def isFull (s : Slot) : Bool := s.pending.isSome

/-- Leaves a fragment; also answers whether an older one was discarded. -/
def publish (s : Slot) (fragment : Payload) : Bool × Slot := (s.isFull, ⟨some fragment⟩)

def take (s : Slot) : Option Payload × Slot := (s.pending, ⟨none⟩)

end Slot
end EdgeAgent
