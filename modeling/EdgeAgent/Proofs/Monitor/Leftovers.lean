import EdgeAgent.Monitor.Simulated
import EdgeAgent.Proofs.Monitor.Passes

/-! # What passes leave in the fragment

A pass writes into the fragment that the station holds. If the writing breaks off, what was
written stays there, and the next pass that succeeds writes on top of it. So a published
fragment belongs to one pass as long as no writing has broken off since the last hand-over;
otherwise it is told here what it is.
-/

namespace EdgeAgent.Station

variable {μ : Type} [Monitor μ]

/-- What some monitors have left in the fragment whose writing broke off, the last one first. -/
def residue : List μ → Payload
  | [] => {}
  | m :: ms => (Monitor.populate m (residue ms)).2

omit [Monitor μ] in
/-- Whose writing has broken off since the last hand-over, after one more pass has ended. -/
def noted : Option (Verdict μ) → List μ → List μ
  | some (.published ..), _ => []
  | some (.brokenOff m), ms => m :: ms
  | _, ms => ms

/-- Runs of a station, with the monitors as they were when their writing broke off. -/
inductive Reachable : Station μ → List μ → Prop
  | setUp (m : μ) (period now : Nat) : Reachable (.new m period now) []
  | act {s : Station μ} {ms : List μ} {now : Nat} {w : World} {v : Option (Verdict μ)}
      (o : Operation) : Reachable s ms →
        Acts now s w v (s.operate o now w).1 (s.operate o now w).2 →
          Reachable (s.operate o now w).1 (noted v ms)
  /-- A visitor hands the fragment over. -/
  | handOver {s : Station μ} {ms : List μ} : Reachable s ms → Reachable s.publish.leave []
  /-- Something else happens: the station is started or stopped, its period is changed,
  someone looks at the fragment, or the slot is filled or emptied. -/
  | other {s t : Station μ} {ms : List μ} : Reachable s ms → t.monitor = s.monitor →
      t.fragment = s.fragment → t.underWay = s.underWay → Reachable t ms

variable {s t : Station μ} {ms : List μ} {v : Option (Verdict μ)}

theorem Leaves.fragment_eq (h : s.Leaves v t) (hbefore : s.fragment = residue ms) :
    t.fragment = residue (noted v ms) := by
  cases v with
  | none => exact (Untouched.fragment h).trans hbefore
  | some v =>
      cases v with
      | published m fragment => exact h.2.2.1
      | brokenOff m =>
          obtain ⟨_, ⟨e, hwrite⟩, _⟩ := h
          rw [hbefore] at hwrite
          exact (congrArg Prod.snd hwrite).symm
      | failed | crashed => exact h.1.trans hbefore

/-- The fragment holds what the broken writings have left, and nothing else. -/
theorem Reachable.fragment_eq (h : Reachable s ms) : s.fragment = residue ms := by
  induction h with
  | setUp => rfl
  | act o _ hacts ih => exact hacts.leaves.fragment_eq ih
  | handOver =>
      unfold leave
      split <;> rfl
  | other _ _ hfragment _ ih => exact hfragment.trans ih

theorem Reachable.nothing_left (h : Reachable s ms)
    (hwrites : ∀ (m : μ) (p : Payload), (Monitor.populate m p).1 = none) : ms = [] := by
  have hnoted {s t : Station μ} {v : Option (Verdict μ)} (hleaves : s.Leaves v t) :
      noted v [] = [] := by
    cases v with
    | none => rfl
    | some v =>
        cases v with
        | brokenOff m =>
            obtain ⟨_, ⟨e, hwrite⟩, _⟩ := hleaves
            have hnone := hwrites m s.fragment
            rw [hwrite] at hnone
            cases hnone
        | published | failed | crashed => rfl
  induction h with
  | setUp | handOver => rfl
  | act o _ hacts ih =>
      rw [ih]
      exact hnoted hacts.leaves
  | other _ _ _ _ ih => exact ih

/-- What the end of a pass publishes is what the monitor writes on the residue. Nothing is
published by a pass that does not succeed. -/
def Publishes (ms : List μ) (s : Station μ) (t : Station μ) : Option (Verdict μ) → Prop
  | some (.published m fragment) =>
    t.slot = ⟨some fragment⟩ ∧ Monitor.populate m (residue ms) = (none, fragment)
  | _ => t.slot = s.slot

theorem Leaves.publishes (h : s.Leaves v t) (hbefore : s.fragment = residue ms) :
    Publishes ms s t v := by
  cases v with
  | none => exact Untouched.slot h
  | some v =>
      cases v with
      | published m fragment =>
          obtain ⟨_, hwrite, _, hslot⟩ := h
          rw [hbefore] at hwrite
          exact ⟨hslot, hwrite⟩
      | brokenOff m => exact h.2.2
      | failed | crashed => exact h.2

/-- What a station publishes from its passes, if these monitors have broken off their writing
since the last hand-over. -/
structure Accounts (s : Station μ) (ms : List μ) : Prop where
  acts : ∀ o now w, ∃ v, Acts now s w v (s.operate o now w).1 (s.operate o now w).2
  publishes : ∀ now w v t w', Acts now s w v t w' → Publishes ms s t v
  /-- With no residue, a fragment is what its own pass writes into the empty one. -/
  own : ms = [] → ∀ now w m fragment t w', Acts now s w (some (.published m fragment)) t w' →
    Monitor.populate m {} = (none, fragment)
  flawless : (∀ (m : μ) (p : Payload), (Monitor.populate m p).1 = none) → ms = []

/-- The fragment of a pass that succeeds is what it has written on the residue of those that
have broken off since the last hand-over. No other pass publishes anything. Without a residue,
as it is with monitors that always can write, a fragment belongs to one pass. -/
theorem Reachable.published_on_residue (h : Reachable s ms) : Accounts s ms := by
  have hpublishes : ∀ now w v t w', Acts now s w v t w' → Publishes ms s t v :=
    fun now w v t w' hacts => hacts.leaves.publishes h.fragment_eq
  refine ⟨s.operate_acts, hpublishes, ?_, h.nothing_left⟩
  intro hnone now w m fragment t w' hacts
  have hwrite := (hpublishes now w _ t w' hacts).2
  rwa [hnone] at hwrite

/-! ## A writing that breaks off -/

def probe : SimulatedMonitor := ⟨"probe_monitor", true, 0, none⟩

def planned (ending : Simulation.PassEnd) : World :=
  { simulation := { monitors := [⟨⟨[⟨0, ending⟩]⟩, 0, []⟩] } }

def brokenWriting : World :=
  planned (.report (Payload.empty.put .hostname "early") (some "disk full"))

def fullWriting : World := planned (.report (Payload.empty.put .ip "10.0.0.2") none)

def brokenProbe : SimulatedMonitor :=
  { probe with found := some (Payload.empty.put .hostname "early", some "disk full") }

def fullProbe : SimulatedMonitor :=
  { probe with found := some (Payload.empty.put .ip "10.0.0.2", none) }

def brokenStation : Station SimulatedMonitor :=
  ((Station.new probe (Duration.ofSeconds 60) 0).request .outside 0 brokenWriting).1

theorem reachable_broken : Reachable brokenStation [brokenProbe] := by
  have hserved : Served 0 ((Station.new probe (Duration.ofSeconds 60) 0).wanted .outside 0)
      brokenWriting (some (.brokenOff brokenProbe)) brokenStation
      ((Station.new probe (Duration.ofSeconds 60) 0).request .outside 0 brokenWriting).2 :=
    .whole (p := ⟨.outside, 0, _, _⟩) rfl rfl rfl (.breakOff rfl rfl)
  exact (Reachable.setUp probe (Duration.ofSeconds 60) 0).act .request (.inr hserved)

def mixedFragment : Payload := (Monitor.populate fullProbe (residue [brokenProbe])).2

theorem acts_mixed :
    Acts 0 brokenStation fullWriting (some (.published fullProbe mixedFragment))
      (brokenStation.operate .request 0 fullWriting).1
      (brokenStation.operate .request 0 fullWriting).2 :=
  .inr (.whole (p := ⟨.outside, 0, _, _⟩) rfl rfl rfl (.publish rfl rfl))

theorem published_on_residue_broken :
    Reachable brokenStation [brokenProbe] ∧ Accounts brokenStation [brokenProbe] ∧
      (brokenStation.operate .request 0 fullWriting).1.slot = ⟨some mixedFragment⟩ ∧
      Monitor.populate fullProbe (residue [brokenProbe]) = (none, mixedFragment) := by
  have haccounts := reachable_broken.published_on_residue
  exact ⟨reachable_broken, haccounts, haccounts.publishes 0 fullWriting _ _ _ acts_mixed⟩

/-- The second pass of the probe publishes the host name that the first one had written before
it broke off, though the second knows nothing of it. -/
theorem not_own_broken :
    ¬∀ (s : Station SimulatedMonitor) (ms : List SimulatedMonitor), Reachable s ms →
      ∀ now w m fragment t w', Acts now s w (some (.published m fragment)) t w' →
        fragment = (Monitor.populate m {}).2 := by
  intro hown
  have hsame := hown brokenStation [brokenProbe] reachable_broken 0 fullWriting _ _ _ _ acts_mixed
  have hpublished : mixedFragment.value .hostname = some "early" := rfl
  rw [hsame] at hpublished
  cases hpublished

end EdgeAgent.Station
