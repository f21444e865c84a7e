import EdgeAgent.Data.Table
import EdgeAgent.Number.Double

/-! # JSON values

A number is a whole number or a double, and the two are never equal. The
members of an object stand in ascending order of their names. -/

namespace EdgeAgent

inductive Json where
  | null
  | bool (b : Bool)
  | int (n : Int)
  | double (x : Double)
  | str (s : String)
  | arr (items : List Json)
  | obj (members : List (String × Json))
deriving Inhabited

abbrev Document := Table Json

namespace Json

def ofDocument (d : Document) : Json := .obj d.rows

def document? : Json → Option Document
  | .obj members => some (Table.ofList members)
  | _ => none

def texts (ss : List String) : Json := .arr (ss.map .str)

/-- Infinities and what is no number have no JSON form. -/
def ofDouble (x : Double) : Json := if x.isFinite then .double x else .null

def ofNat (n : Nat) : Json := .int n

def ofOption {α : Type} (f : α → Json) : Option α → Json
  | none => .null
  | some a => f a

def text? : Json → Option String
  | .str s => some s
  | _ => none

def texts? : Json → Option (List String)
  | .arr items => items.mapM text?
  | _ => none

def number? : Json → Option Double
  | .int n => some (Double.ofInt n)
  | .double x => some x
  | _ => none

def member? (name : String) : Json → Option Json
  | .obj members => Table.lookRows name members
  | _ => none

def isNull : Json → Bool
  | .null => true
  | _ => false

/-! ## Equality -/

mutual
/-- Equality of values: doubles compare as numbers, so the two zeros are equal. -/
def same : Json → Json → Bool
  | .null, .null => true
  | .bool a, .bool b => a == b
  | .int a, .int b => a == b
  | .double x, .double y => x.same y
  | .str a, .str b => a == b
  | .arr xs, .arr ys => sameItems xs ys
  | .obj xs, .obj ys => sameMembers xs ys
  | _, _ => false

def sameItems : List Json → List Json → Bool
  | [], [] => true
  | x :: xs, y :: ys => same x y && sameItems xs ys
  | _, _ => false

def sameMembers : List (String × Json) → List (String × Json) → Bool
  | [], [] => true
  | (m, x) :: xs, (n, y) :: ys => m == n && same x y && sameMembers xs ys
  | _, _ => false
end

instance : BEq Json := ⟨same⟩

/-! ## Nesting -/

mutual
def depth : Json → Nat
  | .arr items => depthItems items + 1
  | .obj members => depthMembers members + 1
  | _ => 0

def depthItems : List Json → Nat
  | [] => 0
  | x :: xs => max (depth x) (depthItems xs)

def depthMembers : List (String × Json) → Nat
  | [] => 0
  | (_, x) :: xs => max (depth x) (depthMembers xs)
end

end Json
end EdgeAgent
