import EdgeAgent.Time.Duration
import EdgeAgent.Text.Quoted

/-! # Actions with a countdown

An action is due as soon as nothing remains of its countdown; running it sets
the countdown to one period. Countdowns go below zero when an action is overdue,
and neither way beyond a greatest number of milliseconds. -/

namespace EdgeAgent

structure Action (α : Type) where
  name : String
  id : String
  task : α
  period : Nat
  /-- What remains of the countdown, in nanoseconds. -/
  remaining : Int
  /-- How often the action has run. -/
  runs : Nat
deriving Repr

namespace Action

variable {α : Type}

def maxCountdown : Nat := Duration.ofMillis (twoTo 63 - 1)

/-- A duration as a countdown, cut at the greatest one. -/
def countdown (d : Nat) : Int := min d maxCountdown

def new (name id : String) (task : α) (period : Nat) : Action α :=
  ⟨name, id, task, period, 0, 0⟩

def after (a : Action α) (delay : Nat) : Action α := { a with remaining := countdown delay }

def isDue (a : Action α) : Bool := a.remaining ≤ 0

def fire (a : Action α) : Action α :=
  { a with remaining := countdown a.period, runs := a.runs + 1 }

def call (a : Action α) : Option (α × Action α) :=
  if a.isDue then some (a.task, a.fire) else none

/-- Lets time pass; none if the countdown leaves its range. -/
def elapse (a : Action α) (d : Nat) : Option (Action α) :=
  let remaining := a.remaining - countdown d
  if -(maxCountdown : Int) ≤ remaining ∧ remaining ≤ maxCountdown then
    some { a with remaining }
  else none

def sleep (a : Action α) : Nat := a.remaining.toNat

/-- What remains, in whole milliseconds, as seconds. -/
def remainingSeconds (a : Action α) : Double :=
  Double.ofInt (Int.tdiv a.remaining 1000000) / Double.ofNat 1000

def debugText (a : Action α) : String :=
  String.ofList <|
    "TimedAction \x7b name: ".toList ++ (Text.Quoted.quote a.name).toList ++
    ", period: ".toList ++ (Duration.text a.period).toList ++
    ", remaining_time: TimeDelta \x7b secs: ".toList ++
      (toString (a.remaining / 1000000000)).toList ++
    ", nanos: ".toList ++ (toString (a.remaining % 1000000000)).toList ++
    " \x7d, uuid: ".toList ++ a.id.toList ++ " \x7d".toList

def sooner (a b : Action α) : Bool := a.remaining ≤ b.remaining

def putInOrder (a : Action α) : List (Action α) → List (Action α)
  | [] => [a]
  | b :: rest => if a.sooner b then a :: b :: rest else b :: putInOrder a rest

/-- Orders actions by when they become due; equal ones stay in their order. -/
def inOrder (actions : List (Action α)) : List (Action α) := actions.foldr putInOrder []

end Action
end EdgeAgent
