import EdgeAgent.Json.Value

/-! # Texts read as far as they are JSON

A term is a JSON text in which the first fault is a leaf, so that whoever
decodes a term walks it in the order of the text and meets a value of the wrong
shape and a fault of the text in the order in which they stand. A leaf keeps two
readings: its value, and whether it can be skipped, for a value that nobody asks
for is not checked as closely as one that is used. -/

namespace EdgeAgent

/-- What is wrong with a text: it ends too early, or something cannot stand
where it stands. -/
inductive Defect where
  | endInValue
  | endInArray
  | endInObject
  | endInText
  | noValue
  | noWord
  | noColon
  | noArrayComma
  | noObjectComma
  | unnamedMember
  | idleComma
  | badNumber
  | hugeNumber
  | badEscape
  | control
  | loneSurrogate
  | cutSurrogate
  | tooDeep
  | leftover
deriving DecidableEq, Repr

namespace Defect

def isEnd : Defect → Bool
  | .endInValue | .endInArray | .endInObject | .endInText => true
  | _ => false

def message : Defect → String
  | .endInValue => "EOF while parsing a value"
  | .endInArray => "EOF while parsing a list"
  | .endInObject => "EOF while parsing an object"
  | .endInText => "EOF while parsing a string"
  | .noValue => "expected value"
  | .noWord => "expected ident"
  | .noColon => "expected `:`"
  | .noArrayComma => "expected `,` or `]`"
  | .noObjectComma => "expected `,` or `\x7d`"
  | .unnamedMember => "key must be a string"
  | .idleComma => "trailing comma"
  | .badNumber => "invalid number"
  | .hugeNumber => "number out of range"
  | .badEscape => "invalid escape"
  | .control => "control character (\\u0000-\\u001F) found while parsing a string"
  | .loneSurrogate => "lone leading surrogate in hex escape"
  | .cutSurrogate => "unexpected end of hex escape"
  | .tooDeep => "recursion limit exceeded"
  | .leftover => "trailing characters"

end Defect

/-- A place in a text: some bytes into what is left of it, or its end. -/
structure Place where
  left : List Char
  beyond : Nat
deriving DecidableEq, Repr

namespace Place

def before (left : List Char) : Place := ⟨left, 0⟩

def within (left : List Char) : Place := ⟨left, 1⟩

def size (cs : List Char) : Nat := cs.foldl (fun n c => n + c.utf8Size) 0

def position (p : Place) (text : List Char) : Nat × Nat :=
  let whole := size text
  let index := min whole (whole - size p.left + p.beyond)
  let rec go (line column : Nat) : Nat → List Char → Nat × Nat
    | _, [] => (line, column)
    | left, c :: rest =>
      if left < c.utf8Size then (line, column + left)
      else if c = '\n' then go (line + 1) 0 (left - 1) rest
      else go line (column + c.utf8Size) (left - c.utf8Size) rest
  go 1 0 index text

end Place

/-- A defect and its place. -/
structure Fault where
  defect : Defect
  place : Place
deriving DecidableEq, Repr

inductive Word where
  | null
  | yes
  | no
deriving DecidableEq, Repr

/-- A leaf of the text: its value, and the fault that stops whoever skips it. -/
structure Token (α : Type) where
  value : Except Fault α
  skipped : Option Fault

inductive Term where
  /-- Nothing here begins a value. -/
  | broken (fault : Fault)
  /-- A word, or the beginning of one. -/
  | word (w : Word) (fault : Option Fault)
  | number (token : Token Json)
  | text (token : Token String)
  /-- `whole` begins with the opening bracket, here as in an object. -/
  | array (whole : List Char) (items : List Term) (fault : Option Fault)
  /-- `other` is what stands where a member's name should be. -/
  | object (whole : List Char) (members : List (Token String × Term)) (fault : Option Fault)
    (other : Option Term)

namespace Term

/-! ## Skipping -/

mutual
/-- The fault met by whoever skips the term. -/
def skip : Term → Option Fault
  | .broken f => some f
  | .word _ f => f
  | .number t => t.skipped
  | .text t => t.skipped
  | .array _ items f => (skipItems items).or f
  | .object _ members f _ => (skipMembers members).or f

def skipItems : List Term → Option Fault
  | [] => none
  | t :: rest => (skip t).or (skipItems rest)

def skipMembers : List (Token String × Term) → Option Fault
  | [] => none
  | (name, t) :: rest => name.skipped.or ((skip t).or (skipMembers rest))
end

end Term
end EdgeAgent
