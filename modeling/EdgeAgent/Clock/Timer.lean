import EdgeAgent.Time.Duration

/-! # Timers

A timer tells when a turn is due. Of the turns that are due at one instant, the
one whose timer was set first comes first. -/

namespace EdgeAgent

/-- The rank of a turn among those that are due at one instant. -/
inductive Rank where
  /-- For one who goes on without waiting, or who waits outside. -/
  | ahead
  /-- For one who waits for a timer, which was set in the turn of a number. -/
  | queue (turn : Nat)
  /-- For one who is woken by another one at the instant. -/
  | behind
deriving DecidableEq, Repr

namespace Rank

def precedes : Rank → Rank → Bool
  | .ahead, _ => true
  | .queue _, .ahead => false
  | .queue a, .queue b => decide (a ≤ b)
  | .queue _, .behind => true
  | .behind, .behind => true
  | .behind, _ => false

theorem precedes_total (a b : Rank) : a.precedes b = true ∨ b.precedes a = true := by
  cases a <;> cases b <;> simp [precedes]
  omega

end Rank

structure Timer where
  /-- When the turn is due. -/
  rings : Nat
  rank : Rank
deriving DecidableEq, Repr

namespace Timer

def atOnce (now : Nat) : Timer := ⟨now, .ahead⟩

def woken (now : Nat) : Timer := ⟨now, .behind⟩

/-- For one who waits until a span has passed. -/
def after (now span : Nat) (rank : Rank) : Timer :=
  let rings := Instant.endOfWait now span
  if rings ≤ now then atOnce now else ⟨rings, rank⟩

theorem rings_after (now span : Nat) (rank : Rank) :
    (after now span rank).rings = Instant.endOfWait now span := by
  have hle := Instant.le_endOfWait now span
  unfold after
  by_cases h : Instant.endOfWait now span ≤ now
  · simp only [h, if_true, atOnce]
    omega
  · simp [h]

/-- The turn of the one timer does not come after that of the other one. -/
def precedes (a b : Timer) : Bool :=
  decide (a.rings < b.rings) || (decide (a.rings = b.rings) && a.rank.precedes b.rank)

theorem precedes_iff {a b : Timer} :
    a.precedes b = true ↔
      a.rings < b.rings ∨ a.rings = b.rings ∧ a.rank.precedes b.rank = true := by
  simp [precedes]

theorem precedes_total (a b : Timer) : a.precedes b = true ∨ b.precedes a = true := by
  simp only [precedes_iff]
  obtain lt | eq | gt := Nat.lt_trichotomy a.rings b.rings
  · exact .inl (.inl lt)
  · exact (a.rank.precedes_total b.rank).imp (.inr ⟨eq, ·⟩) (.inr ⟨eq.symm, ·⟩)
  · exact .inr (.inl gt)

/-- The turn that may come of the one timer is the next one, though there may be
another timer. -/
def isFirst : Option Timer → Option Timer → Bool
  | some a, some b => a.precedes b
  | some _, none => true
  | none, _ => false

theorem ne_none_of_isFirst {a b : Option Timer} (h : isFirst a b = true) : a ≠ none := by
  intro hnone
  rw [hnone] at h
  cases h

def sooner (a b : Option Timer) : Option Timer := if isFirst a b then a else b

/-- The row whose turn comes first, with its timer. -/
def firstRow {β : Type} (due : β → Option Timer) : List (String × β) → Option (String × Timer)
  | [] => none
  | (name, x) :: rows =>
    match due x, firstRow due rows with
    | some a, some (other, b) => some (if a.precedes b then (name, a) else (other, b))
    | some a, none => some (name, a)
    | none, found => found

end Timer
end EdgeAgent
