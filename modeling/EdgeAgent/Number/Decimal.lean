import EdgeAgent.Number.Double

/-! # Reading decimal text

Two grammars: whole numbers up to a limit, with an optional plus sign, and
doubles with sign, fraction, exponent and the words for infinity and no number.
Both read the whole text or nothing. -/

namespace EdgeAgent.Decimal

def digit? (c : Char) : Option Nat :=
  if '0' ≤ c ∧ c ≤ '9' then some (c.toNat - '0'.toNat) else none

/-- Digits read onto a value: the new value, how many there were, and the rest
of the text. -/
def digits (value count : Nat) : List Char → Nat × Nat × List Char
  | [] => (value, count, [])
  | c :: rest =>
    match digit? c with
    | some d => digits (value * 10 + d) (count + 1) rest
    | none => (value, count, c :: rest)

/-! ## Whole numbers -/

inductive Fault where
  | empty
  | invalidDigit
  | tooLarge
deriving DecidableEq, Repr

def Fault.message : Fault → String
  | .empty => "cannot parse integer from empty string"
  | .invalidDigit => "invalid digit found in string"
  | .tooLarge => "number too large to fit in target type"

/-- Continues a whole number; of two faults the one nearer the start counts. -/
def naturalFrom (limit value : Nat) : List Char → Except Fault Nat
  | [] => .ok value
  | c :: rest =>
    match digit? c with
    | none => .error .invalidDigit
    | some d =>
      let next := value * 10 + d
      if limit < next then .error .tooLarge else naturalFrom limit next rest

def natural (limit : Nat) (text : String) : Except Fault Nat :=
  match text.toList with
  | [] => .error .empty
  | ['+'] => .error .invalidDigit
  | '+' :: rest => naturalFrom limit 0 rest
  | cs => naturalFrom limit 0 cs

def maxWord : Nat := twoTo 64 - 1

/-! ## Doubles -/

private def lower (c : Char) : Char :=
  if 'A' ≤ c ∧ c ≤ 'Z' then Char.ofNat (c.toNat + 32) else c

/-- An exponent: `e`, an optional sign, and at least one digit, up to the end. -/
private def exponent? : List Char → Option Int
  | [] => some 0
  | c :: rest =>
    if lower c = 'e' then
      let (negative, ds) : Bool × List Char := match rest with
        | '-' :: r => (true, r)
        | '+' :: r => (false, r)
        | r => (false, r)
      match digits 0 0 ds with
      | (_, 0, _) => none
      | (v, _, []) => some (if negative then -(v : Int) else v)
      | _ => none
    else none

private def unsigned? (negative : Bool) (cs : List Char) : Option Double :=
  let word := cs.map lower
  if word = "inf".toList ∨ word = "infinity".toList then some (Double.infinity negative)
  else if word = "nan".toList then some Double.nan
  else
    let (whole, before, rest) := digits 0 0 cs
    let (value, after, rest) := match rest with
      | '.' :: r => digits whole 0 r
      | r => (whole, 0, r)
    if before + after = 0 then none
    else (exponent? rest).map fun e => Double.ofDecimal negative value (e - after)

def double? (text : String) : Option Double :=
  match text.toList with
  | '-' :: rest => unsigned? true rest
  | '+' :: rest => unsigned? false rest
  | cs => unsigned? false cs

end EdgeAgent.Decimal
