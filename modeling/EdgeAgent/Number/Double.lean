import EdgeAgent.Number.Power

/-! # Double precision numbers

A double is its sixty-four bits. Every operation takes the exact value of its
operands, computes on fractions of naturals and rounds once, so the whole
arithmetic rests on `ofRatio`: the double nearest to a fraction, a tie going to
the even neighbour. -/

namespace EdgeAgent

/-- An IEEE binary64 number, given by its bits. -/
structure Double where
  bits : UInt64
deriving DecidableEq, Repr, Inhabited

namespace Double

/-- What the bits stand for. A finite number is `mantissa · 2 ^ exponent`. -/
inductive Reading where
  | nan
  | infinite (negative : Bool)
  | finite (negative : Bool) (mantissa : Nat) (exponent : Int)
deriving DecidableEq, Repr

def negative (x : Double) : Bool := twoTo 63 ≤ x.bits.toNat

def magnitude (x : Double) : Nat := x.bits.toNat % twoTo 63

/-- The magnitude of the infinities; a greater one is no number. -/
def infinityMagnitude : Nat := 0x7ff * twoTo 52

def pack (negative : Bool) (magnitude : Nat) : Double :=
  ⟨(if negative then magnitude + twoTo 63 else magnitude).toUInt64⟩

def infinity (negative : Bool) : Double := pack negative infinityMagnitude

def nan : Double := pack false (infinityMagnitude + twoTo 51)

def zero (negative : Bool) : Double := pack negative 0

def reading (x : Double) : Reading :=
  let m := x.magnitude
  if infinityMagnitude < m then .nan
  else if m = infinityMagnitude then .infinite x.negative
  else if m < twoTo 52 then .finite x.negative m (-1074)
  else .finite x.negative (m % twoTo 52 + twoTo 52) ((m / twoTo 52 : Nat) - 1075)

def isFinite (x : Double) : Bool := x.magnitude < infinityMagnitude

/-! ## Rounding -/

/-- The quotient nearest to `num / den`; halfway between two it is the even one. -/
def roundHalfEven (num den : Nat) : Nat :=
  let q := num / den
  let twice := 2 * (num % den)
  if den < twice || (twice == den && q % 2 == 1) then q + 1 else q

def scaled (num den : Nat) (exponent : Int) : Nat × Nat :=
  if 0 ≤ exponent then (num, den * twoTo exponent.toNat) else (num * twoTo (-exponent).toNat, den)

/-- The exponent of the last place of `num / den`: fifty-three significant
bits, and no place below the smallest one. -/
def placeOf (num den : Nat) : Int :=
  let low := max ((num.log2 : Int) - den.log2 - 53) (-1074)
  let (n, d) := scaled num den low
  if twoTo 53 ≤ n / d then low + 1 else low

/-- The double nearest to the fraction `num / den`, a tie going to the even
neighbour; from halfway beyond the greatest finite one it is infinite. -/
def ofRatio (negative : Bool) (num den : Nat) : Double :=
  if num = 0 then zero negative
  else
    let place := placeOf num den
    let (n, d) := scaled num den place
    let magnitude := (place + 1074).toNat * twoTo 52 + roundHalfEven n d
    pack negative (min magnitude infinityMagnitude)

def ofScaled (negative : Bool) (mantissa : Nat) (exponent : Int) : Double :=
  if 0 ≤ exponent then ofRatio negative (mantissa * twoTo exponent.toNat) 1
  else ofRatio negative mantissa (twoTo (-exponent).toNat)

def ofNat (n : Nat) : Double := ofRatio false n 1

def ofInt (n : Int) : Double := ofRatio (decide (n < 0)) n.natAbs 1

/-- The double nearest to `digits · 10 ^ exponent`. Beyond the range of the
exponent the answer is known without the power. -/
def ofDecimal (negative : Bool) (digits : Nat) (exponent : Int) : Double :=
  if digits = 0 then zero negative
  else
    let size : Int := exponent + (digits.log2 : Int) / 4
    if 400 < size then infinity negative
    else if exponent + (digits.log2 : Int) < -400 then zero negative
    else if 0 ≤ exponent then ofRatio negative (digits * tenTo exponent.toNat) 1
    else ofRatio negative digits (tenTo (-exponent).toNat)

/-! ## Arithmetic -/

def neg (x : Double) : Double := pack (!x.negative) x.magnitude

private def signed (negative : Bool) (n : Nat) : Int := if negative then -(n : Int) else n

/-- Two finite numbers are added in units of the smaller last place. A sum of
zero is negative only if both terms are. -/
def add (x y : Double) : Double :=
  match x.reading, y.reading with
  | .nan, _ => nan
  | _, .nan => nan
  | .infinite s, .infinite t => if s = t then infinity s else nan
  | .infinite s, .finite .. => infinity s
  | .finite .., .infinite t => infinity t
  | .finite s m e, .finite t n f =>
    let place := min e f
    let sum := signed s (m * twoTo (e - place).toNat) + signed t (n * twoTo (f - place).toNat)
    if sum = 0 then zero (s && t) else ofScaled (decide (sum < 0)) sum.natAbs place

def mul (x y : Double) : Double :=
  let s := x.negative != y.negative
  match x.reading, y.reading with
  | .nan, _ => nan
  | _, .nan => nan
  | .infinite _, .infinite _ => infinity s
  | .infinite _, .finite _ n _ => if n = 0 then nan else infinity s
  | .finite _ m _, .infinite _ => if m = 0 then nan else infinity s
  | .finite _ m e, .finite _ n f => ofScaled s (m * n) (e + f)

def div (x y : Double) : Double :=
  let s := x.negative != y.negative
  match x.reading, y.reading with
  | .nan, _ => nan
  | _, .nan => nan
  | .infinite _, .infinite _ => nan
  | .infinite _, .finite .. => infinity s
  | .finite .., .infinite _ => zero s
  | .finite _ m e, .finite _ n f =>
    if n = 0 then (if m = 0 then nan else infinity s)
    else if f ≤ e then ofRatio s (m * twoTo (e - f).toNat) n
    else ofRatio s m (n * twoTo (f - e).toNat)

def roundAway (x : Double) : Double :=
  match x.reading with
  | .finite s m e =>
    if 0 ≤ e then x
    else
      let unit := twoTo (-e).toNat
      ofRatio s ((2 * m + unit) / (2 * unit)) 1
  | _ => x

instance : Add Double := ⟨add⟩
instance : Mul Double := ⟨mul⟩
instance : Div Double := ⟨div⟩

/-! ## Comparison -/

def same (x y : Double) : Bool :=
  decide (x.magnitude ≤ infinityMagnitude) && decide (y.magnitude ≤ infinityMagnitude) &&
    (x.bits == y.bits || (x.magnitude == 0 && y.magnitude == 0))

/-- The position of a double among all doubles: numbers by value, a negative
zero before a positive one. -/
def rank (x : Double) : Int :=
  if x.negative then -(x.magnitude : Int) - 1 else x.magnitude

end Double
end EdgeAgent
