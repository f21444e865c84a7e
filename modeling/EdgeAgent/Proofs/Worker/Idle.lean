import EdgeAgent.Proofs.Worker.Log

/-! # Workers whose loop is not there

Such a worker performs nothing. One that has failed stays as it is until a fresh unit
is put in place, and none of them runs again before it is started.
-/

namespace EdgeAgent.Worker

variable {υ π α : Type}

/-- Someone puts a fresh unit in place. -/
def Deed.isReset : Deed π → Bool
  | .reset .. => true
  | _ => false

/-- Someone starts the loop, if it may be started. -/
def Deed.starts : Deed π → Bool
  | .start => true
  | .reset _ starts => starts
  | _ => false

def Claim.isSwap : Claim υ π → Bool
  | .swap .. => true
  | .cycle | .guest => false

def Claim.starts : Claim υ π → Bool
  | .swap _ _ starts => starts
  | .cycle | .guest => false

theorem isCycling_of_isAlive {s : Worker υ π α} (h : s.isAlive = false) : s.isCycling = false := by
  cases hloop : s.loop <;> simp_all [isAlive, isCycling]

theorem loopDue_of_isAlive {s : Worker υ π α} (h : s.isAlive = false) (now : Nat) :
    s.loopDue now = none := by
  cases hloop : s.loop <;> simp_all [isAlive, loopDue]

theorem serveSwaps_of_no_swap {cs : List (Claim υ π)} (h : ∀ c ∈ cs, c.isSwap = false) (now : Nat)
    (s : Worker υ π α) : serveSwaps now cs s = { s with claims := cs } := by
  cases cs with
  | nil => rfl
  | cons c cs =>
      cases c with
      | swap fresh param starts => exact nomatch h _ List.mem_cons_self
      | cycle => rfl
      | guest => rfl

variable [Craft υ π α]

/-! ## One unit in place of another -/

/-- The loop is not there, nobody who waits will start it, and nothing was performed
since the calls. -/
structure Stands (calls : List (Call α)) (s : Worker (Logged υ α) π α) : Prop where
  dead : s.isAlive = false
  unstarted : ∀ c ∈ s.claims, c.starts = false
  unchanged : s.unit.calls = calls ∨ s.unit.calls = []

theorem serveSwaps_stands {calls : List (Call α)} {cs : List (Claim (Logged υ α) π)}
    (hstarts : ∀ c ∈ cs, c.starts = false) (hbuilt : ∀ c ∈ cs, c.IsBuilt) (now : Nat)
    {s : Worker (Logged υ α) π α} (hdead : s.isAlive = false)
    (hcalls : s.unit.calls = calls ∨ s.unit.calls = []) : (serveSwaps now cs s).Stands calls := by
  induction cs generalizing s with
  | nil => exact ⟨hdead, hstarts, hcalls⟩
  | cons c cs ih =>
      cases c with
      | swap fresh param starts =>
          obtain ⟨hfirst, hrest⟩ := List.forall_mem_cons.mp hstarts
          obtain ⟨⟨_, _, _, hfresh⟩, hothers⟩ := List.forall_mem_cons.mp hbuilt
          have hrunning : s.isRunning = false := by rw [isRunning, hdead, Bool.false_and]
          -- A swap that does not start the loop leaves it gone, and the log is empty.
          cases hfirst
          rw [serveSwaps, replace_of_not_running hrunning]
          exact ih hrest hothers hdead (.inr (Logged.calls_of_build hfresh))
      | cycle => exact ⟨hdead, hstarts, hcalls⟩
      | guest => exact ⟨hdead, hstarts, hcalls⟩

variable [Timed υ]

theorem turn_of_isAlive {s : Worker (Logged υ α) π α} (hdead : s.isAlive = false) (now : Nat)
    (w : World) : (s.turn now w).1 = { s with unit := (Timed.turn s.unit now w).1 } := by
  unfold turn
  rw [loopDue_of_isAlive hdead]
  rfl

theorem Stands.act {calls : List (Call α)} {s : Worker (Logged υ α) π α} (h : s.Stands calls)
    (horderly : s.Orderly) (now : Nat) (w : World) {d : Deed π} (hd : d.starts = false) :
    (s.act now w d).1.Stands calls := by
  have hclaim (c : Claim (Logged υ α) π) (hc : c.starts = false) (hbuilt : c.IsBuilt) :
      (s.claim c now).Stands calls := by
    refine serveSwaps_stands ?_ ?_ now h.dead h.unchanged
    · intro d hd
      rcases List.mem_append.mp hd with hd | hd
      · exact h.unstarted d hd
      · exact List.mem_singleton.mp hd ▸ hc
    · intro d hd
      rcases List.mem_append.mp hd with hd | hd
      · exact horderly.built d hd
      · exact List.mem_singleton.mp hd ▸ hbuilt
  cases d with
  | start => cases hd
  | stop | setPeriod => exact ⟨h.dead, h.unstarted, h.unchanged⟩
  | confirmEnd =>
      simp only [Worker.act, confirmEnd, h.dead]
      exact ⟨rfl, h.unstarted, h.unchanged⟩
  | reset param starts =>
      simp only [Worker.act, reset]
      rcases hbuild : Craft.build (υ := Logged υ α) (param.getD s.param) now w with ⟨fresh | fresh, w'⟩
      · exact h
      · exact hclaim _ hd ⟨now, w, w', hbuild⟩
  | borrow => exact hclaim _ rfl trivial
  | giveBack =>
      simp only [Worker.act, giveBack]
      split
      · refine serveSwaps_stands ?_ ?_ now h.dead h.unchanged
        · exact fun c hc => h.unstarted c (List.mem_of_mem_drop hc)
        · exact fun c hc => horderly.built c (List.mem_of_mem_drop hc)
      · exact h
  | turn =>
      simp only [Worker.act, turn_of_isAlive h.dead]
      exact ⟨h.dead, h.unstarted, h.unchanged⟩

/-- A worker that has failed and has not been given a fresh unit. -/
structure Rests (state : WorkerState) (calls : List (Call α)) (s : Worker (Logged υ α) π α) :
    Prop where
  dead : s.isAlive = false
  unserved : ∀ c ∈ s.claims, c.isSwap = false
  failed : s.state = state
  unchanged : s.unit.calls = calls

theorem Rests.act {state : WorkerState} {calls : List (Call α)} {s : Worker (Logged υ α) π α}
    (h : s.Rests state calls) (hstate : state.isFailed = true) (now : Nat) (w : World)
    {d : Deed π} (hd : d.isReset = false) : (s.act now w d).1.Rests state calls := by
  have hkeeps (cs : List (Claim (Logged υ α) π)) (hcs : ∀ c ∈ cs, c.isSwap = false) :
      (serveSwaps now cs s).Rests state calls := by
    rw [serveSwaps_of_no_swap hcs]
    exact ⟨h.dead, hcs, h.failed, h.unchanged⟩
  cases d with
  | start =>
      have hfailed : s.state.isFailed = true := h.failed ▸ hstate
      simp only [Worker.act, Worker.start, hfailed, Bool.or_true, if_true]
      exact h
  | stop | setPeriod => exact ⟨h.dead, h.unserved, h.failed, h.unchanged⟩
  | confirmEnd =>
      simp only [Worker.act, confirmEnd, h.dead]
      exact ⟨rfl, h.unserved, h.failed, h.unchanged⟩
  | reset param starts => cases hd
  | borrow =>
      refine hkeeps _ fun c hc => ?_
      rcases List.mem_append.mp hc with hc | hc
      · exact h.unserved c hc
      · exact List.mem_singleton.mp hc ▸ rfl
  | giveBack =>
      simp only [Worker.act, giveBack]
      split
      · exact hkeeps _ fun c hc => h.unserved c (List.mem_of_mem_drop hc)
      · exact h
  | turn =>
      simp only [Worker.act, turn_of_isAlive h.dead]
      exact ⟨h.dead, h.unserved, h.failed, h.unchanged⟩

/-! ## Runs -/

theorem Leads.stands {s t : Worker (Logged υ α) π α} {now later : Nat} {ds : List (Deed π)}
    (hleads : Leads s now ds t later) (horderly : s.Orderly) (hdead : s.isAlive = false)
    (hclaims : ∀ c ∈ s.claims, c.starts = false) (hds : ∀ d ∈ ds, d.starts = false) :
    t.isAlive = false ∧ (t.unit.calls = s.unit.calls ∨ t.unit.calls = []) := by
  have hstands := (hleads.deeds (P := Stands s.unit.calls)
    (fun now w _ horderly h hd => h.act horderly now w hd) hds horderly
    ⟨hdead, hclaims, .inl rfl⟩).2
  exact ⟨hstands.dead, hstands.unchanged⟩

theorem Leads.rests {s t : Worker (Logged υ α) π α} {now later : Nat} {ds : List (Deed π)}
    (hleads : Leads s now ds t later) (horderly : s.Orderly) (hfailed : s.state.isFailed = true)
    (hclaims : ∀ c ∈ s.claims, c.isSwap = false) (hds : ∀ d ∈ ds, d.isReset = false) :
    t.isAlive = false ∧ t.state = s.state ∧ t.unit.calls = s.unit.calls := by
  have hdead : s.isAlive = false := by
    cases halive : s.isAlive with
    | false => rfl
    | true => rw [horderly.running halive] at hfailed; cases hfailed
  have hrests := (hleads.deeds (P := Rests s.state s.unit.calls)
    (fun now w _ _ h hd => h.act hfailed now w hd) hds horderly ⟨hdead, hclaims, rfl, rfl⟩).2
  exact ⟨hrests.dead, hrests.failed, hrests.unchanged⟩

end EdgeAgent.Worker
