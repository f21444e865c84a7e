import EdgeAgent.Payload.Codec

/-! # Changes between documents

What has to be sent and what has to be deleted so that somebody who holds one
document comes to hold another. -/

namespace EdgeAgent

structure Changes where
  send : List String
  delete : List String
deriving DecidableEq, Repr

namespace Changes

def isEmpty (c : Changes) : Bool := c.send.isEmpty && c.delete.isEmpty

end Changes

namespace Document

def differs (other : Document) (name : String) (v : Json) : Bool :=
  !Payload.sameValue (other.find? name) (some v)

/-- A name is sent if its value is new, and deleted if it has none any more. -/
def changes (old new : Document) : Changes :=
  ⟨(new.filter (differs old)).keys, (old.filter fun n _ => !new.contains n).keys⟩

def only (d : Document) (names : List String) : Document :=
  d.filter fun n _ => names.contains n

/-- What a holder of the document holds after an update: the deleted names are
removed, then the sent values are set. -/
def apply (d : Document) (data : Document) (delete : List String) : Document :=
  (d.eraseAll delete).insertAll data.rows

end Document

namespace Payload

def changes (old new : Payload) : Changes := Document.changes old.toDocument new.toDocument

end Payload
end EdgeAgent
