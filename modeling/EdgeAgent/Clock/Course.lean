import EdgeAgent.World

/-! # Work that takes time

Work begins at one instant and is finished at a later one. What it works on may
change in between, so finishing takes it as it then is. -/

namespace EdgeAgent

inductive Outcome (ε : Type) where
  | done
  | failed (e : ε)
  | crashed

/-- Work on `σ` that has begun, and what finishing it will do. -/
structure Course (σ ε : Type) where
  /-- Nanoseconds from the beginning to the end. A pause lets others take their
  turns, even if it is of no length; without one nothing comes in between. -/
  pause : Option Nat
  finish : σ → World → Outcome ε × σ × World

namespace Course

variable {σ ε : Type}

def immediate (f : σ → World → Outcome ε × σ × World) : Course σ ε := ⟨none, f⟩

/-- Work that takes some time, if any. -/
def lasting (delay : Nat) (f : σ → World → Outcome ε × σ × World) : Course σ ε :=
  ⟨if delay = 0 then none else some delay, f⟩

/-- When work that begins now can be finished by one who waits at a rank. -/
def ending (c : Course σ ε) (now : Nat) (rank : Rank) : Timer :=
  match c.pause with
  | none => .atOnce now
  | some 0 => .woken now
  | some span => .after now span rank

end Course
end EdgeAgent
