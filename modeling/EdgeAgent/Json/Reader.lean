import EdgeAgent.Json.Term
import EdgeAgent.Number.Decimal

/-! # From text to terms

The reader never fails: it leaves the first fault in the term. Numbers keep the
sixty-four bits of significant digits that fit, and scale them by a power of ten
with one rounding for the digits and one for the scaling. -/

namespace EdgeAgent.Json.Reader

open EdgeAgent

structure Lexed (α : Type) where
  token : Token α
  rest : List Char

def isSpace (c : Char) : Bool := c == ' ' || c == '\n' || c == '\t' || c == '\r'

def skipSpace (cs : List Char) : List Char := cs.dropWhile isSpace

/-! ## Words -/

def spell : List Char → List Char → Option Fault × List Char
  | [], cs => (none, cs)
  | _ :: _, [] => (some ⟨.endInValue, .before []⟩, [])
  | w :: ws, c :: cs => if w = c then spell ws cs else (some ⟨.noWord, .within (c :: cs)⟩, cs)

/-! ## Texts -/

/-- Where in a text the reader stands: between characters, behind a backslash,
or behind some digits of a code. -/
inductive Mode where
  | plain
  | escape
  /-- `text` begins with the code. -/
  | code (text : List Char) (count value : Nat)

def hexDigit? (c : Char) : Option Nat :=
  if '0' ≤ c ∧ c ≤ '9' then some (c.toNat - '0'.toNat)
  else if 'a' ≤ c ∧ c ≤ 'f' then some (c.toNat - 'a'.toNat + 10)
  else if 'A' ≤ c ∧ c ≤ 'F' then some (c.toNat - 'A'.toNat + 10)
  else none

def escaped? : Char → Option Char
  | '"' => some '"'
  | '\\' => some '\\'
  | '/' => some '/'
  | 'b' => some '\x08'
  | 'f' => some '\x0c'
  | 'n' => some '\n'
  | 'r' => some '\r'
  | 't' => some '\t'
  | _ => none

def isHigh (code : Nat) : Bool := 0xd800 ≤ code && code ≤ 0xdbff
def isLow (code : Nat) : Bool := 0xdc00 ≤ code && code ≤ 0xdfff

def paired (high low : Nat) : Char :=
  Char.ofNat (0x10000 + (high - 0xd800) * 0x400 + (low - 0xdc00))

def fourBytes (cs : List Char) : Bool := 4 ≤ Place.size (cs.take 4)

def cut {α : Type} (bad : Option Fault) (f : Fault) (rest : List Char) : Lexed α :=
  ⟨⟨.error (bad.getD f), some f⟩, rest⟩

/-- Reads a text behind its opening quote. `high` is a first surrogate that
waits for the second, `out` the characters so far, the last one first, and `bad`
the first fault that only whoever uses the text minds. -/
def chars : List Char → Mode → Option Nat → List Char → Option Fault → Lexed String
  | [], _, _, _, bad => cut bad ⟨.endInText, .before []⟩ []
  | c :: rest, .plain, high, out, bad =>
    let lone : Option Fault :=
      if high.isSome then bad.or (some ⟨.cutSurrogate, .within (c :: rest)⟩) else bad
    if c = '\\' then chars rest .escape high out bad
    else if c = '"' then
      match lone with
      | none => ⟨⟨.ok (String.ofList out.reverse), none⟩, rest⟩
      | some f => ⟨⟨.error f, none⟩, rest⟩
    else if c.toNat < 0x20 then cut lone ⟨.control, .within (c :: rest)⟩ rest
    else chars rest .plain none (c :: out) lone
  | c :: rest, .escape, high, out, bad =>
    if c = 'u' then
      if fourBytes rest then chars rest (.code rest 0 0) high out bad
      else cut bad ⟨.endInText, .before []⟩ []
    else
      let lone : Option Fault :=
        if high.isSome then bad.or (some ⟨.cutSurrogate, .within (c :: rest)⟩) else bad
      match escaped? c with
      | none => cut lone ⟨.badEscape, .within (c :: rest)⟩ rest
      | some e => chars rest .plain none (e :: out) lone
  | c :: rest, .code text count value, high, out, bad =>
    match hexDigit? c with
    | none => cut bad ⟨.badEscape, ⟨text, 4⟩⟩ rest
    | some d =>
      let code := value * 16 + d
      let lone : Fault := ⟨.loneSurrogate, .before rest⟩
      if count < 3 then chars rest (.code text (count + 1) code) high out bad
      else
        match high with
        | some h =>
          if isLow code then chars rest .plain none (paired h code :: out) bad
          else chars rest .plain none out (bad.or (some lone))
        | none =>
          if isHigh code then chars rest .plain (some code) out bad
          else if isLow code then chars rest .plain none out (bad.or (some lone))
          else chars rest .plain none (Char.ofNat code :: out) bad

def text (cs : List Char) : Lexed String := chars cs .plain none [] none

/-! ## Numbers -/

/-- A number that breaks off or goes on badly: how it reads, and how it is
skipped. -/
def broken (defect : Defect) (place : Place) (rest : List Char) : Lexed Json :=
  ⟨⟨.error ⟨defect, place⟩, some ⟨.badNumber, .within rest⟩⟩, rest⟩

/-- Digits read so far: a significand of sixty-four bits, and how many digits
came behind it because it had no room for them. -/
structure Significand where
  value : Nat
  dropped : Nat

/-- Reads digits for as long as the significand has room, and drops the others.
Also answers how many were kept. -/
def absorb (s : Significand) (kept : Nat) : List Char → Significand × Nat × List Char
  | [] => (s, kept, [])
  | c :: rest =>
    match Decimal.digit? c with
    | none => (s, kept, c :: rest)
    | some d =>
      if s.dropped = 0 ∧ s.value * 10 + d ≤ Decimal.maxWord then
        absorb ⟨s.value * 10 + d, 0⟩ (kept + 1) rest
      else absorb ⟨s.value, s.dropped + 1⟩ kept rest

def greatestPower : Nat := 308

def power (n : Nat) : Double := Double.ofDecimal false 1 n

/-- Divides by the greatest power until the exponent is in reach of one scaling. -/
def scaleDown : Nat → Double → Int → Option Double
  | 0, x, _ => some x
  | fuel + 1, x, exponent =>
    if -(greatestPower : Int) ≤ exponent then
      if 0 ≤ exponent then
        let y := x * power exponent.toNat
        if y.isFinite then some y else none
      else some (x / power (-exponent).toNat)
    else if x.magnitude = 0 then some x
    else scaleDown fuel (x / power greatestPower) (exponent + greatestPower)

/-- A significand times a power of ten; none if that is out of range. -/
def scale (negative : Bool) (significand : Nat) (exponent : Int) : Option Double :=
  let x := Double.ofNat significand
  let y :=
    if exponent ≤ greatestPower then scaleDown (exponent.natAbs / greatestPower + 2) x exponent
    else if x.magnitude = 0 then some x
    else none
  y.map fun y => if negative then y.neg else y

def finish (negative : Bool) (significand : Nat) (exponent : Int) (rest : List Char) :
    Lexed Json :=
  match scale negative significand exponent with
  | some x => ⟨⟨.ok (.double x), none⟩, rest⟩
  | none => ⟨⟨.error ⟨.hugeNumber, .before rest⟩, none⟩, rest⟩

def maxExponent : Nat := twoTo 31 - 1

/-- Reads the digits of an exponent as far as they stay within the greatest one.
Beyond it, the first part of the answer is none. -/
def exponentDigits (value : Nat) : List Char → Option Nat × List Char
  | [] => (some value, [])
  | c :: rest =>
    match Decimal.digit? c with
    | none => (some value, c :: rest)
    | some d =>
      if value * 10 + d ≤ maxExponent then exponentDigits (value * 10 + d) rest else (none, rest)

/-- Reads the exponent behind its letter. An exponent beyond the greatest one
makes zero, or a number out of range. -/
def exponent (negative : Bool) (significand : Nat) (start : Int) (cs : List Char) : Lexed Json :=
  let (down, cs) : Bool × List Char := match cs with
    | '+' :: r => (false, r)
    | '-' :: r => (true, r)
    | r => (false, r)
  match cs with
  | [] => broken .endInValue (.before []) []
  | c :: _ =>
    if (Decimal.digit? c).isNone then broken .badNumber (.within cs) cs
    else
      match exponentDigits 0 cs with
      | (some value, rest) =>
        finish negative significand (if down then start - value else start + value) rest
      | (none, left) =>
        let rest := left.dropWhile fun c => (Decimal.digit? c).isSome
        if significand ≠ 0 ∧ down = false then
          ⟨⟨.error ⟨.hugeNumber, .before left⟩, none⟩, rest⟩
        else ⟨⟨.ok (.double (Double.zero negative)), none⟩, rest⟩

def fraction (negative : Bool) (significand : Nat) (start : Int) (cs : List Char) : Lexed Json :=
  match cs with
  | [] => broken .endInValue (.before []) []
  | c :: _ =>
    if (Decimal.digit? c).isNone then broken .badNumber (.within cs) cs
    else
      let (s, kept, rest) := absorb ⟨significand, 0⟩ 0 cs
      let place := start - kept
      match rest with
      | 'e' :: r => exponent negative s.value place r
      | 'E' :: r => exponent negative s.value place r
      | r => finish negative s.value place r

/-- A whole number, or the double nearest to one that has no room in sixty-four
bits. A negative zero is a double. -/
def whole (negative : Bool) (s : Significand) (rest : List Char) : Lexed Json :=
  if s.dropped ≠ 0 then finish negative s.value s.dropped rest
  else if negative = false then ⟨⟨.ok (.int s.value), none⟩, rest⟩
  else if s.value = 0 ∨ twoTo 63 < s.value then
    ⟨⟨.ok (.double (Double.ofNat s.value).neg), none⟩, rest⟩
  else ⟨⟨.ok (.int (-(s.value : Int))), none⟩, rest⟩

def number (negative : Bool) (cs : List Char) : Lexed Json :=
  match cs with
  | [] => broken .endInValue (.before []) []
  | c :: more =>
    if (Decimal.digit? c).isNone then broken .badNumber (.within cs) cs
    else if c = '0' ∧ (more.head?.bind Decimal.digit?).isSome then
      broken .badNumber (.within more) more
    else
      let (s, _, rest) := absorb ⟨0, 0⟩ 0 cs
      match rest with
      | '.' :: r => fraction negative s.value s.dropped r
      | 'e' :: r => exponent negative s.value s.dropped r
      | 'E' :: r => exponent negative s.value s.dropped r
      | r => whole negative s r

/-! ## Values -/

def leaf {α : Type} (f : Token α → Term) (l : Lexed α) : Term × List Char :=
  (f l.token, l.rest)

def wordTerm (w : Word) (letters : String) (cs : List Char) : Term × List Char :=
  let (fault, rest) := spell letters.toList cs
  (.word w fault, rest)

def early (defect : Defect) : Fault := ⟨defect, .before []⟩

mutual
/-- Reads one value. The fuel bounds the characters that are left. -/
def value : Nat → List Char → Term × List Char
  | 0, cs => (.broken (early .endInValue), cs)
  | fuel + 1, cs =>
    match skipSpace cs with
    | [] => (.broken (early .endInValue), [])
    | c :: rest =>
      match c with
      | 'n' => wordTerm .null "ull" rest
      | 't' => wordTerm .yes "rue" rest
      | 'f' => wordTerm .no "alse" rest
      | '-' => leaf .number (number true rest)
      | '"' => leaf .text (text rest)
      | '[' =>
        match skipSpace rest with
        | ']' :: more => (.array (c :: rest) [] none, more)
        | [] => (.array (c :: rest) [] (some (early .endInArray)), [])
        | more => items fuel more (c :: rest) []
      | '{' =>
        match skipSpace rest with
        | '}' :: more => (.object (c :: rest) [] none none, more)
        | [] => (.object (c :: rest) [] (some (early .endInObject)) none, [])
        | more => members fuel more (c :: rest) []
      | c =>
        if (Decimal.digit? c).isSome then leaf .number (number false (c :: rest))
        else (.broken ⟨.noValue, .within (c :: rest)⟩, c :: rest)

/-- Reads the items of an array from one of them on; `whole` is the text from
the opening bracket on, and `done` has the items before this one, the last one
first. -/
def items : Nat → List Char → List Char → List Term → Term × List Char
  | 0, cs, whole, done => (.array whole done.reverse (some (early .endInArray)), cs)
  | fuel + 1, cs, whole, done =>
    let (t, rest) := value fuel cs
    let done := t :: done
    match skipSpace rest with
    | ',' :: more =>
      match skipSpace more with
      | ']' :: more =>
        (.array whole done.reverse (some ⟨.idleComma, .within (']' :: more)⟩), more)
      | more => items fuel more whole done
    | ']' :: more => (.array whole done.reverse none, more)
    | [] => (.array whole done.reverse (some (early .endInArray)), [])
    | more => (.array whole done.reverse (some ⟨.noArrayComma, .within more⟩), more)

def members : Nat → List Char → List Char → List (Token String × Term) → Term × List Char
  | 0, cs, whole, done => (.object whole done.reverse (some (early .endInObject)) none, cs)
  | fuel + 1, cs, whole, done =>
    match skipSpace cs with
    | [] =>
      let fault := early .endInValue
      (.object whole done.reverse (some fault) (some (.broken fault)), [])
    | '"' :: rest =>
      let name := text rest
      match skipSpace name.rest with
      | ':' :: more =>
        let (t, rest) := value fuel more
        let done := (name.token, t) :: done
        match skipSpace rest with
        | ',' :: more => members fuel more whole done
        | '}' :: more => (.object whole done.reverse none none, more)
        | [] => (.object whole done.reverse (some (early .endInObject)) none, [])
        | more => (.object whole done.reverse (some ⟨.noObjectComma, .within more⟩) none, more)
      | [] =>
        let fault := early .endInObject
        (.object whole ((name.token, .broken fault) :: done).reverse (some fault) none, [])
      | more =>
        let fault : Fault := ⟨.noColon, .within more⟩
        (.object whole ((name.token, .broken fault) :: done).reverse (some fault) none, more)
    | more =>
      let defect : Defect :=
        if done.isEmpty then .unnamedMember
        else if more.head? = some '}' then .idleComma else .unnamedMember
      let (t, rest) := value fuel more
      (.object whole done.reverse (some ⟨defect, .within more⟩) (some t), rest)
end

def read (cs : List Char) : Term × List Char := value (cs.length + 1) cs

end EdgeAgent.Json.Reader
