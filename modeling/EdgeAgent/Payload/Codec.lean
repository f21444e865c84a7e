import EdgeAgent.Payload.Basic

/-! # The written form of payloads

A payload is written as an object of the attributes that it sets, and read from
an object or from an array of all of them. -/

namespace EdgeAgent

namespace Kind

def encode : (k : Kind) → k.Carrier → Json
  | .state, s => .str (EdgeState.name s)
  | .text, s => .str s
  | .texts, ss => Json.texts ss
  | .document, v => v
  | .documents, vs => .arr vs

def decode? : (k : Kind) → Json → Option k.Carrier
  | .state, .str s => EdgeState.ofName? s
  | .text, .str s => some s
  | .texts, .arr items => Json.texts? (.arr items)
  | .document, v => some v
  | .documents, .arr items => some items
  | _, _ => none

def shape : Kind → Shape
  | .state => .oneOf (EdgeState.all.map EdgeState.name)
  | .text => .text
  | .texts => .texts
  | .document => .document
  | .documents => .documents

end Kind

namespace Attribute

def index (a : Attribute) : Nat := all.idxOf a

def field (a : Attribute) : Field := ⟨a.name, a.kind.shape, .unset⟩

end Attribute

namespace Payload

def fields : List Field := Attribute.all.map Attribute.field

def entries (p : Payload) : List (String × Json) :=
  Attribute.all.filterMap fun a => (p.value a).map fun v => (a.name, a.kind.encode v)

def toDocument (p : Payload) : Document := Table.ofList p.entries

def toJson (p : Payload) : Json := .ofDocument p.toDocument

def ofRow (row : Row) : Payload := ⟨fun a => (row.at? a.index).bind a.kind.decode?⟩

/-- The payload that a value stands for. -/
def ofJson? (v : Json) : Option Payload := (Record.ofJson fields v).map ofRow

def parse (s : String) : Except Misread Payload := (Json.parseRecord fields s).map ofRow

/-! ## Equality -/

/-- Two written values are both missing, or equal. -/
def sameValue : Option Json → Option Json → Bool
  | none, none => true
  | some v, some w => v == w
  | _, _ => false

/-- The payloads give every attribute equal values. -/
def same (p q : Payload) : Bool :=
  Attribute.all.all fun a =>
    sameValue ((p.value a).map a.kind.encode) ((q.value a).map a.kind.encode)

instance : BEq Payload := ⟨same⟩

def isEmpty (p : Payload) : Bool := p == empty

end Payload
end EdgeAgent
