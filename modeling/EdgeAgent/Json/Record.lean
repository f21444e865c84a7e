import EdgeAgent.Json.Reader

/-! # Decoding JSON

Values of a given shape, and records of named fields, from a term or from a
value. A record is an object, whose unknown members are skipped and whose known
ones stand once, or an array of all its fields in their order. Decoding a term
stops at the first fault in the order of the text; decoding a value can only
find the wrong shape. -/

namespace EdgeAgent

/-- Why a text cannot be decoded: it is no JSON, it ends too early, or it is not
of the wanted shape. -/
inductive Misread where
  | malformed
  | ended
  | mismatched
deriving DecidableEq, Repr

namespace Fault

def toMisread (f : Fault) : Misread := if f.defect.isEnd then .ended else .malformed

end Fault

namespace Json

def depthLimit : Nat := 127

end Json

namespace Token

def read {α : Type} (t : Token α) : Except Misread α := t.value.mapError Fault.toMisread

end Token

namespace Term

def proceed : Option Fault → Except Misread Unit
  | none => .ok ()
  | some f => .error f.toMisread

def closed {α : Type} : Option Fault → α → Except Fault α
  | none, a => .ok a
  | some f, _ => .error f

/-- The outcome for a value of another shape: its own fault comes first, but
arrays and objects are refused at their opening bracket. -/
def mismatch {α : Type} : Term → Except Misread α
  | .broken f => .error f.toMisread
  | .word _ (some f) => .error f.toMisread
  | .number ⟨.error f, _⟩ => .error f.toMisread
  | .text ⟨.error f, _⟩ => .error f.toMisread
  | _ => .error .mismatched

/-! ## Any value -/

mutual
/-- The value of a term that may open `room` more brackets. -/
def json (room : Nat) : Term → Except Fault Json
  | .broken f => .error f
  | .word _ (some f) => .error f
  | .word .null none => .ok .null
  | .word .yes none => .ok (.bool true)
  | .word .no none => .ok (.bool false)
  | .number t => t.value
  | .text t => t.value.map .str
  | .array whole ts f =>
    match room with
    | 0 => .error ⟨.tooDeep, .within whole⟩
    | room + 1 => do
      let values ← jsonItems room ts
      closed f (.arr values)
  | .object whole ms f _ =>
    match room with
    | 0 => .error ⟨.tooDeep, .within whole⟩
    | room + 1 => do
      let pairs ← jsonMembers room ms
      closed f (.ofDocument (Table.ofList pairs))

def jsonItems (room : Nat) : List Term → Except Fault (List Json)
  | [] => .ok []
  | t :: rest => do
    let v ← json room t
    return v :: (← jsonItems room rest)

def jsonMembers (room : Nat) : List (Token String × Term) → Except Fault (List (String × Json))
  | [] => .ok []
  | (name, t) :: rest => do
    let n ← name.value
    let v ← json room t
    return (n, v) :: (← jsonMembers room rest)
end

/-! ## Shapes -/

end Term

/-- What a field of a record may hold. -/
inductive Shape where
  | text
  | texts
  /-- A whole number of sixty-four bits. -/
  | word
  /-- A text that passes a test. -/
  | textWhere (accepts : String → Bool)
  /-- One of some names, as a text or as the only member of an object, with null. -/
  | oneOf (names : List String)
  | document
  | documents

namespace Term

def textsOf : List Term → Except Misread (List Json)
  | [] => .ok []
  | .text t :: rest => do
    let s ← t.read
    return .str s :: (← textsOf rest)
  | t :: _ => mismatch t

def nameOf (names : List String) (t : Token String) : Except Misread String := do
  let s ← t.read
  if names.contains s then return s else .error .mismatched

def ofShape (room : Nat) : Shape → Term → Except Misread Json
  | .text, .text t => t.read.map .str
  | .texts, .array _ ts f => do
    let ss ← textsOf ts
    proceed f
    return .arr ss
  | .word, .number t => do
    match ← t.read with
    | .int n => if 0 ≤ n then return .int n else .error .mismatched
    | _ => .error .mismatched
  | .textWhere accepts, .text t => do
    let s ← t.read
    if accepts s then return .str s else .error .mismatched
  | .oneOf names, .text t => do return .str (← nameOf names t)
  | .oneOf names, .object _ ((name, t) :: more) f other => do
    let s ← nameOf names name
    match t with
    | .word .null none =>
      match more, f, other with
      | [], none, _ => return .str s
      | [], some f, none => .error f.toMisread
      | _, _, _ => .error .malformed
    | t => mismatch t
  | .oneOf _, .object _ [] _ (some t) => do
    match t with
    | .text t => let _ ← t.read; .error .mismatched
    | t => mismatch t
  | .oneOf _, .object _ [] (some f) none => .error f.toMisread
  | .oneOf _, .broken f => .error f.toMisread
  | .oneOf _, _ => .error .malformed
  | .document, t => (json room t).mapError Fault.toMisread
  | .documents, .array _ ts f => do
    let values ← (jsonItems (room - 1) ts).mapError Fault.toMisread
    proceed f
    return .arr values
  | _, t => mismatch t

end Term

namespace Shape

/-- The value has the shape, and what it is then taken as. -/
def ofJson : Shape → Json → Option Json
  | .text, .str s => some (.str s)
  | .texts, .arr items => (Json.texts? (.arr items)).map Json.texts
  | .word, .int n => if 0 ≤ n then some (.int n) else none
  | .textWhere accepts, .str s => if accepts s then some (.str s) else none
  | .oneOf names, .str s => if names.contains s then some (.str s) else none
  | .oneOf names, .obj [(s, .null)] => if names.contains s then some (.str s) else none
  | .document, v => some v
  | .documents, .arr items => some (.arr items)
  | _, _ => none

end Shape

/-! ## Records -/

/-- What an absent field means: an error, an unset field, or its usual value; in
an array only the last may be left out. -/
inductive Absence where
  | refused
  | unset
  | usual
deriving DecidableEq

/-- A field of a record. One that may be unset may also be null. -/
structure Field where
  name : String
  shape : Shape
  absence : Absence

namespace Field

def nullable (f : Field) : Bool := f.absence == .unset

def ofTerm (room : Nat) (f : Field) (t : Term) : Except Misread (Option Json) :=
  match f.nullable, t with
  | true, .word .null none => .ok none
  | true, .word .null (some e) => .error e.toMisread
  | _, t => (Term.ofShape room f.shape t).map some

def ofJson (f : Field) (v : Json) : Option (Option Json) :=
  match f.nullable, v with
  | true, .null => some none
  | _, v => (f.shape.ofJson v).map some

end Field

abbrev Row := List (Option Json)

namespace Row

def at? (row : Row) (i : Nat) : Option Json := (row[i]?).join

end Row

namespace Record

abbrev Seen := List (String × Option Json)

/-- The row of an object; a field that must not be absent has to be there. -/
def close (fields : List Field) (seen : Seen) : Option Row :=
  fields.mapM fun f =>
    match Table.lookRows f.name seen with
    | some v => some v
    | none => if f.absence = .refused then none else some none

/-! ## From a term -/

def membersOfTerm (room : Nat) (fields : List Field) :
    List (Token String × Term) → Seen → Except Misread Seen
  | [], seen => .ok seen
  | (name, t) :: rest, seen => do
    let n ← name.read
    match fields.find? (·.name == n) with
    | none =>
      Term.proceed t.skip
      membersOfTerm room fields rest seen
    | some f =>
      if (Table.lookRows n seen).isSome then .error .mismatched
      else
        let v ← f.ofTerm room t
        membersOfTerm room fields rest ((n, v) :: seen)

def itemsOfTerm (room : Nat) (stop : Option Fault) :
    List Field → List Term → Except Misread Row
  | [], [] => do
    Term.proceed stop
    return []
  | [], _ :: _ => .error .malformed
  | f :: fields, t :: ts => do
    let v ← f.ofTerm room t
    return v :: (← itemsOfTerm room stop fields ts)
  | f :: fields, [] => do
    Term.proceed stop
    if f.absence = .usual then return none :: (← itemsOfTerm room stop fields [])
    else .error .mismatched

def ofTerm (fields : List Field) : Term → Except Misread Row
  | .object _ ms f _ => do
    let seen ← membersOfTerm (Json.depthLimit - 1) fields ms []
    Term.proceed f
    match close fields seen with
    | some row => return row
    | none => .error .mismatched
  | .array _ ts f => itemsOfTerm (Json.depthLimit - 1) f fields ts
  | t => Term.mismatch t

/-! ## From a value -/

def membersOfJson (fields : List Field) : List (String × Json) → Option Seen
  | [] => some []
  | (n, v) :: rest =>
    match fields.find? (·.name == n) with
    | none => membersOfJson fields rest
    | some f => do
      let v ← f.ofJson v
      return (n, v) :: (← membersOfJson fields rest)

def itemsOfJson : List Field → List Json → Option Row
  | [], [] => some []
  | [], _ :: _ => none
  | f :: fields, v :: vs => do
    let v ← f.ofJson v
    return v :: (← itemsOfJson fields vs)
  | f :: fields, [] =>
    if f.absence = .usual then (itemsOfJson fields []).map (none :: ·) else none

def ofJson (fields : List Field) : Json → Option Row
  | .obj members => (membersOfJson fields members).bind (close fields)
  | .arr items => itemsOfJson fields items
  | _ => none

end Record

/-! ## Whole texts -/

namespace Json

/-- Decodes a whole text; what follows the value is looked at last. -/
def decode {α : Type} (s : String) (f : Term → Except Misread α) : Except Misread α := do
  let (t, rest) := Reader.read s.toList
  let a ← f t
  if (Reader.skipSpace rest).isEmpty then return a else .error .malformed

def parse (s : String) : Except Misread Json :=
  decode s fun t => (Term.json depthLimit t).mapError Fault.toMisread

def parseItems (s : String) : Except Misread (List Json) :=
  decode s fun
    | .array _ ts f => do
      let values ← (Term.jsonItems (depthLimit - 1) ts).mapError Fault.toMisread
      Term.proceed f
      return values
    | t => Term.mismatch t

def parseRecord (fields : List Field) (s : String) : Except Misread Row :=
  decode s (Record.ofTerm fields)

end Json
end EdgeAgent
