import EdgeAgent.Json.Misfit

/-! # Complaints about JSON

What is told about a text or a value that cannot be decoded: the reason in words,
and for a text also the place. -/

namespace EdgeAgent

/-- Why something could not be decoded. A line of zero stands for no place. -/
structure Complaint where
  cause : Misread
  text : String
  line : Nat := 0
  column : Nat := 0
deriving DecidableEq, Repr

namespace Complaint

def message (c : Complaint) : String :=
  if c.line = 0 then c.text
  else c.text ++ " at line " ++ toString c.line ++ " column " ++ toString c.column

def form (c : Complaint) : String :=
  "Error(" ++ Text.Quoted.quote c.text ++ ", line: " ++ toString c.line ++ ", column: " ++
    toString c.column ++ ")"

def ofPlace (whole : List Char) (place : Place) (cause : Misread) (text : String) : Complaint :=
  let (line, column) := place.position whole
  { cause, text, line, column }

def ofFault (whole : List Char) (f : Fault) : Complaint :=
  .ofPlace whole f.place f.toMisread f.defect.message

end Complaint

namespace Json

/-- The object in a text. A value of another kind is complained about behind it,
an array before it. -/
def document (s : String) : Except Complaint Document :=
  let whole := s.toList
  let other (v : Json) (left : List Char) : Complaint :=
    .ofPlace whole (.before left) .mismatched (v.misfit "a map")
  match Reader.read whole with
  | (.array text _ _, _) => .error (other (.arr []) text)
  | (t, rest) =>
    match t.json depthLimit with
    | .error f => .error (.ofFault whole f)
    | .ok v =>
      match v.document? with
      | none => .error (other v rest)
      | some d =>
        match Reader.skipSpace rest with
        | [] => .ok d
        | more => .error (.ofFault whole ⟨.leftover, .within more⟩)

end Json
end EdgeAgent
