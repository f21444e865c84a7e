import EdgeAgent.Agenda.Action
import EdgeAgent.Error

/-! # The agenda

An agenda holds actions, and the instant to which their countdowns have been
counted. Every look at the actions first lets the time pass that went by since
then, and puts the action that is due first in front. -/

namespace EdgeAgent

structure Agenda (α : Type) where
  actions : List (Action α)
  /-- Up to where time has been counted. -/
  counted : Nat
deriving Repr

namespace Agenda

variable {α : Type}

inductive Fault where
  | empty
  | outOfRange
deriving DecidableEq, Repr

def new (actions : List (Action α)) (now : Nat) : Agenda α := ⟨actions, now⟩

def tick (a : Agenda α) (now : Nat) : Except Fault (Agenda α) :=
  match a.actions.mapM fun x => x.elapse (now - a.counted) with
  | some actions => .ok ⟨actions, now⟩
  | none => .error .outOfRange

/-- Counts the time and orders the actions by what remains; equal ones stay in
their order. -/
def observe (a : Agenda α) (now : Nat) : Except Fault (Agenda α) := do
  let a ← a.tick now
  return { a with actions := Action.inOrder a.actions }

def add (a : Agenda α) (x : Action α) (now : Nat) : Except Fault (Agenda α) := do
  let a ← a.tick now
  return { a with actions := a.actions ++ [x] }

/-- The action that is due first, and the agenda that was looked at. -/
def next (a : Agenda α) (now : Nat) : Except Fault (Action α × Agenda α) := do
  let a ← a.observe now
  match a.actions with
  | [] => .error .empty
  | x :: _ => return (x, a)

def sleepTime (a : Agenda α) (now : Nat) : Except Fault (Nat × Agenda α) := do
  let (x, a) ← a.next now
  return (x.sleep, a)

/-- What is asked for at the end of a cycle: how long to sleep, once the action that
comes next is known as well. -/
def finishCycle (a : Agenda α) (now : Nat) : Except Fault (Nat × Agenda α) := do
  let (span, a) ← a.sleepTime now
  let (_, a) ← a.next now
  return (span, a)

/-- Runs the action that is due first, if it is due. -/
def callNext (a : Agenda α) (now : Nat) : Except Fault (Option (Action α) × Agenda α) := do
  let (x, a) ← a.next now
  match x.call with
  | none => return (none, a)
  | some (_, fired) => return (some fired, { a with actions := fired :: a.actions.drop 1 })

def drain (a : Agenda α) (now : Nat) : Nat → Except Fault (List (Action α) × Agenda α)
  | 0 => .ok ([], a)
  | limit + 1 => do
    let a ← a.observe now
    match a.actions with
    | [] => return ([], a)
    | x :: rest =>
      if x.isDue then
        let (more, a) ← drain { a with actions := x.fire :: rest } now limit
        return (x.fire :: more, a)
      else return ([], a)

def isMeant (key : String) (x : Action α) : Bool := x.id == key || x.name == key

/-- Changes the period of every action that is meant; countdowns run on. Also
answers whether there was one. -/
def editPeriod (a : Agenda α) (key : String) (period : Nat) : Bool × Agenda α :=
  (a.actions.any (isMeant key),
   { a with actions := a.actions.map fun x => if isMeant key x then { x with period } else x })

end Agenda
end EdgeAgent
