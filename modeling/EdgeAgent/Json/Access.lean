import EdgeAgent.Json.Value

/-! # Looking into JSON values

The members of an object, taken for what they should be. What is missing or of
another kind counts as absent. -/

namespace EdgeAgent.Json

def object (members : List (String × Json)) : Json := .ofDocument (Table.ofList members)

/-- The value of a member, null without one. -/
def get (v : Json) (name : String) : Json := (v.member? name).getD .null

def has (v : Json) (name : String) : Bool := !(v.get name).isNull

def textAt? (v : Json) (name : String) : Option String := (v.get name).text?

def items : Json → List Json
  | .arr items => items
  | _ => []

def members : Json → List (String × Json)
  | .obj members => members
  | _ => []

def itemsAt (v : Json) (name : String) : List Json := (v.get name).items

def membersAt (v : Json) (name : String) : List (String × Json) := (v.get name).members

def textItems (v : Json) : List String := v.items.filterMap text?

def textsAt (v : Json) (name : String) : List String := (v.get name).textItems

def int? : Json → Option Int
  | .int n => some n
  | _ => none

def natAt? (v : Json) (name : String) : Option Nat := (v.get name).int?.map Int.toNat

def natAt (v : Json) (name : String) : Nat := (v.natAt? name).getD 0

def isTrue : Json → Bool
  | .bool b => b
  | _ => false

end EdgeAgent.Json
