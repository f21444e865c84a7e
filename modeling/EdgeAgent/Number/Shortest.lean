import EdgeAgent.Number.Double

/-! # Shortest decimal text of a double

A double is written with the fewest digits that read back as it, and among
those with the ones nearest to it. The decimal grids are tried from coarse to
fine; on each only the two neighbours of the value can lie among the reals that
round to it. `Layout` says how the digits are set out. -/

namespace EdgeAgent.Shortest

structure Decimal where
  digits : Nat
  exponent : Int
deriving DecidableEq, Repr

/-! ## Digits -/

/-- The reals that round to `mantissa · 2 ^ exponent`, in quarters of the last
place: the value, and the two ends of the interval. -/
structure Interval where
  low : Nat
  value : Nat
  high : Nat
  /-- The ends belong to the interval. -/
  closed : Bool

def interval (mantissa : Nat) (exponent : Int) : Interval :=
  let narrow := mantissa == twoTo 52 && decide (-1074 < exponent)
  ⟨4 * mantissa - (if narrow then 1 else 2), 4 * mantissa, 4 * mantissa + 2, mantissa % 2 == 0⟩

/-- The neighbour of the value on the grid `10 ^ place` that lies in the
interval, the nearer one if both do, the even one of two equally near. -/
def onGrid (i : Interval) (exponent place : Int) : Option Nat :=
  let (num, den) : Nat × Nat :=
    (twoTo (exponent - 2).toNat * tenTo (-place).toNat,
     twoTo (2 - exponent).toNat * tenTo place.toNat)
  let below := i.value * num / den
  let inside (d : Nat) : Bool :=
    if i.closed then decide (i.low * num ≤ d * den) && decide (d * den ≤ i.high * num)
    else decide (i.low * num < d * den) && decide (d * den < i.high * num)
  let under := i.value * num - below * den
  let past := (below + 1) * den - i.value * num
  match inside below, inside (below + 1) with
  | true, true =>
    some (if under < past || (under == past && below % 2 == 0) then below else below + 1)
  | true, false => some below
  | false, true => some (below + 1)
  | false, false => none

def firstGrid (i : Interval) (exponent : Int) : Nat → Int → Option Decimal
  | 0, _ => none
  | fuel + 1, place =>
    match onGrid i exponent place with
    | some d => if d = 0 then firstGrid i exponent fuel (place - 1) else some ⟨d, place⟩
    | none => firstGrid i exponent fuel (place - 1)

/-- The shortest decimal of a positive finite double. The coarsest grid is
above the value, and twenty finer ones are enough for any double. -/
def decimalOf (mantissa : Nat) (exponent : Int) : Decimal :=
  let place := ((mantissa.log2 : Int) + exponent) * 30103 / 100000 + 2
  (firstGrid (interval mantissa exponent) exponent 24 place).getD ⟨0, 0⟩

/-! ## Setting out -/

structure Layout where
  /-- The least and greatest power of ten of the first digit that is written
  without an exponent. -/
  least : Int
  greatest : Int
  /-- The text before the exponent of a large and of a small number. -/
  large : String
  small : String

private def zeros (n : Nat) : String := String.ofList (List.replicate n '0')

def Layout.write (l : Layout) (d : Decimal) : String :=
  let ds := toString d.digits
  let count : Int := ds.length
  let first := count + d.exponent - 1
  if l.least ≤ first ∧ first ≤ l.greatest then
    if 0 ≤ d.exponent then ds ++ zeros d.exponent.toNat ++ ".0"
    else if 0 ≤ first then
      String.ofList (ds.toList.take (first + 1).toNat) ++ "." ++
        String.ofList (ds.toList.drop (first + 1).toNat)
    else "0." ++ zeros (-first - 1).toNat ++ ds
  else
    let body := match ds.toList with
      | [] => ""
      | [c] => String.singleton c
      | c :: rest => String.singleton c ++ "." ++ String.ofList rest
    body ++ (if 0 ≤ first then l.large else l.small) ++ toString first.natAbs

def Layout.double (l : Layout) (x : Double) : String :=
  match x.reading with
  | .finite s m e =>
    (if s then "-" else "") ++ (if m = 0 then "0.0" else l.write (decimalOf m e))
  | _ => "null"

end EdgeAgent.Shortest
