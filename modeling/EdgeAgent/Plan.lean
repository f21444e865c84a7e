import EdgeAgent.Data.Table

/-! # Plans

Answers to come, one after the other. The last one repeats; without any there is
the usual one. -/

namespace EdgeAgent

structure Plan (α : Type) where
  upcoming : List α
deriving DecidableEq, Repr, Inhabited

namespace Plan

variable {α : Type}

instance : EmptyCollection (Plan α) := ⟨⟨[]⟩⟩

def take (p : Plan α) : Option α × Plan α :=
  match p.upcoming with
  | [] => (none, p)
  | [a] => (some a, p)
  | a :: rest => (some a, ⟨rest⟩)

end Plan
end EdgeAgent
