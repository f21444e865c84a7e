import EdgeAgent.Json.Printer
import EdgeAgent.Json.Record
import EdgeAgent.Text.Quoted

/-! # What is wrong with a value

The first reason why a value is not of a shape, or is no record of some fields,
in words. There is one exactly if the value cannot be decoded. -/

namespace EdgeAgent

namespace Json

def described : Json → String
  | .null => "null"
  | .bool b => "boolean `" ++ (Json.bool b).compress ++ "`"
  | .int n => "integer `" ++ (Json.int n).compress ++ "`"
  | .double x => "floating point `" ++ (Json.double x).compress ++ "`"
  | .str s => "string " ++ Text.Quoted.quote s
  | .arr _ => "sequence"
  | .obj _ => "map"

def misfit (v : Json) (wanted : String) : String :=
  "invalid type: " ++ v.described ++ ", expected " ++ wanted

end Json

namespace Shape

def wanted : Shape → String
  | .text | .textWhere _ | .oneOf _ => "a string"
  | .texts | .documents => "a sequence"
  | .word => "u64"
  | .document => "any value"

def misfit? (s : Shape) (v : Json) : Option String :=
  match s.ofJson v with
  | some _ => none
  | none => some <| match s, v with
    | .texts, .arr items =>
      match items.find? fun i => i.text?.isNone with
      | some i => i.misfit "a string"
      | none => v.misfit s.wanted
    | .word, .int n => "invalid value: " ++ (Json.int n).described ++ ", expected " ++ s.wanted
    | _, _ => v.misfit s.wanted

end Shape

namespace Field

def misfit? (f : Field) (v : Json) : Option String :=
  match f.nullable, v with
  | true, .null => none
  | _, v => f.shape.misfit? v

end Field

namespace Record

/-- Why an array does not hold the fields in their order; `place` counts the
items before it. -/
def itemsMisfit? (whole : String) (length : Nat) (place : Nat) :
    List Field → List Json → Option String
  | [], [] => none
  | [], _ :: _ => some s!"invalid length {length}, expected fewer elements in array"
  | f :: fields, v :: vs =>
    match f.misfit? v with
    | some reason => some reason
    | none => itemsMisfit? whole length (place + 1) fields vs
  | f :: fields, [] =>
    if f.absence = .usual then itemsMisfit? whole length (place + 1) fields []
    else some ("invalid length " ++ toString place ++ ", expected " ++ whole)

def misfit? (title : String) (fields : List Field) (v : Json) : Option String :=
  match v with
  | .obj members =>
    match members.findSome? fun (n, v) =>
      (fields.find? (·.name == n)).bind fun f => f.misfit? v with
    | some reason => some reason
    | none => (fields.find? fun f =>
        f.absence = .refused ∧ (Table.lookRows f.name members).isNone).map fun f =>
      "missing field `" ++ f.name ++ "`"
  | .arr items =>
    itemsMisfit? ("struct " ++ title ++ " with " ++ toString fields.length ++ " elements")
      items.length 0 fields items
  | v => some (v.misfit ("struct " ++ title))

end Record
end EdgeAgent
