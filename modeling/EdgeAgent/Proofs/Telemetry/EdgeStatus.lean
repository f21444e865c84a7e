import EdgeAgent.Proofs.Monitor.Hindered
import EdgeAgent.Proofs.Telemetry.Collection

/-! # What the edge knows of its node

The monitors of the agent make their passes one by one, in whatever order, and two of them
tell the rest of the edge what node this is. Of a pass that fails nothing is left, neither
in its station nor in what the edge knows, and the node is never known without its
orchestrator.
-/

namespace EdgeAgent

/-! ## One station -/

namespace Station

theorem start_underWay {μ : Type} (s : Station μ) (now : Nat) :
    (s.start now).underWay = s.underWay := by
  unfold start
  split <;> rfl

theorem leave_underWay {μ : Type} (s : Station μ) : s.leave.underWay = s.underWay := by
  unfold leave
  split <;> rfl

variable {s t : Station Builtin} {w w' : World}

theorem Trace.whole {v : Option (Verdict Builtin)} (h : Trace s w v t w') (hw : w.edge.Whole) :
    w'.edge.Whole := by
  cases h with
  | idle | fail => exact hw
  | publish hpass => exact (Builtin.pass_shares hpass).whole hw

theorem operate_genuine (o : Operation) (now : Nat) (hs : s.Genuine) (hw : w.edge.Whole) :
    (s.operate o now w).1.Genuine ∧ (s.operate o now w).2.edge.Whole := by
  obtain ⟨v, hacts⟩ := s.operate_acts o now w
  obtain ⟨hgenuine, htrace⟩ := hacts.trace hs
  exact ⟨hgenuine, htrace.whole hw⟩

end Station

namespace Telemetry

/-! ## All stations -/

/-- The passes that have begun are those of built-in monitors. -/
def Genuine (stations : Table (Station Builtin)) : Prop :=
  ∀ name s, stations.find? name = some s → s.Genuine

section
variable {stations : Table (Station Builtin)}

theorem Genuine.insert (h : Genuine stations) (name : String) {s : Station Builtin}
    (hs : s.Genuine) : Genuine (stations.insert name s) := by
  intro other s' hs'
  rw [Table.find?_insert] at hs'
  split at hs'
  · cases hs'
    exact hs
  · exact h other s' hs'

theorem Genuine.mapRows (h : Genuine stations) {f : String → Station Builtin → Station Builtin}
    (hf : ∀ name s, (f name s).underWay = s.underWay) : Genuine (stations.mapRows f) := by
  intro name s hs
  rw [Table.find?_mapRows] at hs
  obtain ⟨s', hs', rfl⟩ := Option.map_eq_some_iff.mp hs
  exact (h name s' hs').of_underWay (hf name s')

end

def Quiet (registry : List (Registration Builtin)) : Prop := ∀ r ∈ registry, ∀ w, (r.build w).2 = w

theorem quiet_registry : Quiet Builtin.registry := by
  intro r hr w
  simp only [Builtin.registry, List.mem_cons, List.not_mem_nil, or_false] at hr
  rcases hr with rfl | rfl | rfl | rfl | rfl | rfl | rfl | rfl <;> rfl

theorem setUp_genuine {registry : List (Registration Builtin)} (hquiet : Quiet registry)
    (excluded : List String) (period now : Nat) {stations : Table (Station Builtin)} (w : World)
    (h : Genuine stations) :
    Genuine (setUp excluded period now registry stations w).1 ∧
      (setUp excluded period now registry stations w).2 = w := by
  induction registry generalizing stations with
  | nil => exact ⟨h, rfl⟩
  | cons r rest ih =>
      have hrest : Quiet rest := fun r hr => hquiet r (List.mem_cons_of_mem _ hr)
      have hbuild := hquiet r List.mem_cons_self w
      unfold setUp
      split
      · exact ih hrest h
      · dsimp only
        rw [hbuild]
        split
        · exact ih hrest (h.insert r.name (Station.genuine_of_free rfl))
        · exact ih hrest h

theorem reviveAll_genuine {registry : List (Registration Builtin)} (hquiet : Quiet registry)
    (period now : Nat) {stations : Table (Station Builtin)} (w : World) (h : Genuine stations) :
    Genuine (reviveAll period now registry stations w).2.1 ∧
      (reviveAll period now registry stations w).2.2 = w := by
  induction registry generalizing stations with
  | nil => exact ⟨h, rfl⟩
  | cons r rest ih =>
      have hrest : Quiet rest := fun r hr => hquiet r (List.mem_cons_of_mem _ hr)
      have hbuild := hquiet r List.mem_cons_self w
      unfold reviveAll
      cases stations.find? r.name with
      | none => exact ih hrest h
      | some s =>
          dsimp only
          split
          · exact ih hrest h
          · rw [hbuild]
            have hfree := Station.start_underWay (Station.new (r.build w).1 period now) now
            exact ih hrest (h.insert r.name (Station.genuine_of_free hfree))

/-! ## Telemetry in use -/

/-- Telemetry with the monitors of the agent, and its surroundings. -/
structure Sound (t : Telemetry Builtin) (w : World) : Prop where
  registry : t.registry = Builtin.registry
  stations : Genuine t.stations
  whole : w.edge.Whole

section
variable {t : Telemetry Builtin} {w : World}

theorem Sound.mapRows (h : t.Sound w) {f : String → Station Builtin → Station Builtin}
    (hf : ∀ name s, (f name s).underWay = s.underWay) :
    Sound { t with stations := t.stations.mapRows f } w :=
  ⟨h.registry, h.stations.mapRows hf, h.whole⟩

theorem Sound.modify (h : t.Sound w) (name : String) {f : Station Builtin → Station Builtin}
    (hf : ∀ s, (f s).underWay = s.underWay) : (t.modify name f).Sound w := by
  refine h.mapRows ?_
  intro n s
  split
  · exact hf s
  · rfl

theorem Sound.operate (h : t.Sound w) (name : String) (o : Station.Operation) (now : Nat) :
    (t.modifyIn name w fun s w => s.operate o now w).1.Sound
      (t.modifyIn name w fun s w => s.operate o now w).2 := by
  unfold modifyIn
  cases hs : t.stations.find? name with
  | none => exact h
  | some s =>
      obtain ⟨hgenuine, hwhole⟩ := Station.operate_genuine o now (h.stations name s hs) h.whole
      exact ⟨h.registry, h.stations.insert name hgenuine, hwhole⟩

theorem Sound.askFirst (h : t.Sound w) (now : Nat) :
    (t.askFirst now w).1.Sound (t.askFirst now w).2 := by
  unfold Telemetry.askFirst
  split
  · exact h
  · exact h.operate _ .request now

theorem Sound.turn (h : t.Sound w) (now : Nat) : (t.turn now w).1.Sound (t.turn now w).2 := by
  unfold Telemetry.turn
  split
  · unfold goOn
    split
    · exact h
    · rename_i name rest _
      have hstarted := h.modify name fun s => s.start_underWay now
      exact Sound.askFirst (t := { t.modify name _ with gathering := rest })
        ⟨hstarted.registry, hstarted.stations, hstarted.whole⟩ now
  · split
    · exact h.operate _ .turn now
    · exact h

theorem Sound.act (h : t.Sound w) (e : Event) (now : Nat) :
    (e.act t now w).1.Sound (e.act t now w).2 := by
  cases e with
  | turn => exact h.turn now
  | gather =>
      exact Sound.askFirst (t := { t with gathering := t.stations.keys })
        ⟨h.registry, h.stations, h.whole⟩ now
  | request name => exact h.operate name .request now
  | askVisit name => exact h.modify name fun _ => rfl
  | handOver name => exact h.modify name fun s => s.publish.leave_underWay
  | leave name => exact h.modify name Station.leave_underWay
  | start name => exact h.modify name fun s => s.start_underWay now
  | stop name => exact h.modify name fun _ => rfl
  | stopAll => exact h.mapRows fun _ _ => rfl
  | setPeriod period =>
      have hset := h.mapRows fun _ s => (rfl : (s.setPeriod period).underWay = s.underWay)
      exact ⟨hset.registry, hset.stations, hset.whole⟩

theorem Sound.check (h : t.Sound w) (now : Nat) : (t.check now w).1.Sound (t.check now w).2 := by
  have hquiet : Quiet t.registry := h.registry ▸ quiet_registry
  obtain ⟨hgenuine, hworld⟩ :=
    reviveAll_genuine hquiet t.period now (w.say moduleName .running "") h.stations
  have hedge := congrArg World.edge hworld
  have hsame : (t.check now w).2.edge = w.edge := hedge
  exact ⟨h.registry, hgenuine, hsame ▸ h.whole⟩

theorem Sound.snapshot (h : t.Sound w) : (t.snapshot w).2.1.Sound (t.snapshot w).2.2 := by
  have hcollected := h.mapRows (f := fun _ s =>
    if s.enabled then { s with slot := s.slot.take.2 } else s) ?_
  · exact ⟨hcollected.registry, hcollected.stations, hcollected.whole⟩
  · intro _ s
    split <;> rfl

end

/-- Telemetry with the monitors of the agent in use, and its surroundings. At first nothing is
known of the node, and nobody else says anything of it. -/
inductive InUse : Telemetry Builtin → World → Prop
  | begin {w : World} (excluded : Option String) (period now : Nat) : w.edge = {} →
      InUse (Telemetry.new Builtin.registry excluded period now w).1
        (Telemetry.new Builtin.registry excluded period now w).2
  | act {t : Telemetry Builtin} {w : World} (e : Event) (now : Nat) : InUse t w →
      InUse (e.act t now w).1 (e.act t now w).2
  | check {t : Telemetry Builtin} {w : World} (now : Nat) : InUse t w →
      InUse (t.check now w).1 (t.check now w).2
  | snapshot {t : Telemetry Builtin} {w : World} : InUse t w →
      InUse (t.snapshot w).2.1 (t.snapshot w).2.2
  | meanwhile {t : Telemetry Builtin} {w w' : World} : InUse t w → w'.edge = w.edge → InUse t w'

theorem InUse.sound {t : Telemetry Builtin} {w : World} (h : InUse t w) : t.Sound w := by
  induction h with
  | @begin w excluded period now hedge =>
      have hnobody : Genuine Table.empty := by
        intro name s hs
        cases hs
      obtain ⟨hgenuine, hworld⟩ :=
        setUp_genuine quiet_registry (Exclusion.ofSetting excluded) period now w hnobody
      have hunknown : (Telemetry.new Builtin.registry excluded period now w).2.edge = {} :=
        (congrArg World.edge hworld).trans hedge
      refine ⟨rfl, hgenuine, ?_⟩
      rw [hunknown]
      intro hnode
      cases hnode
  | act e now _ ih => exact ih.act e now
  | check now _ ih => exact ih.check now
  | snapshot _ ih => exact ih.snapshot
  | meanwhile _ hedge ih => exact ⟨ih.registry, ih.stations, hedge ▸ ih.whole⟩

/-- What passes leave behind, and what they let the edge know. -/
structure Traceless (t : Telemetry Builtin) (w : World) : Prop where
  stations : Genuine t.stations
  operates : ∀ (s : Station Builtin) o now w,
    ∃ v, Station.Acts now s w v (s.operate o now w).1 (s.operate o now w).2
  /-- While a monitor is hindered nothing is learned or published, and a pass that ends has
  failed. -/
  hindered : ∀ (s : Station Builtin) now w v s' w', s.Genuine → s.monitor.Hindered w →
    Station.Acts now s w v s' w' → (v = none ∨ v = some .failed) ∧ s.Untouched s' ∧ w' = w
  succeeds : ∀ (s : Station Builtin) now w v s' w', s.Genuine → ¬s.monitor.Hindered w →
    Station.Acts now s w v s' w' →
      v = none ∧ s.Untouched s' ∧ w' = w ∨
        ∃ m, v = some (.published m (m.populate s.fragment)) ∧ s.monitor.pass w = .ok (m, w') ∧
          s'.monitor = m ∧ s'.fragment = {} ∧ s'.slot = ⟨some (m.populate s.fragment)⟩
  shares : ∀ (m : Builtin) w m' w', m.pass w = .ok (m', w') → m.Shares w m' w'
  whole : w.edge.Whole

/-- A pass of a built-in monitor fails exactly if something of what it asks for is missing,
and then leaves no trace. After a pass that asks about the cluster the edge knows the node
that the monitor knows, and it knows no node without its orchestrator. -/
theorem InUse.traceless {t : Telemetry Builtin} {w : World} (h : InUse t w) : t.Traceless w where
  stations := h.sound.stations
  operates s := s.operate_acts
  hindered s now w v s' w' hs hhindered hacts := by
    cases (hacts.trace hs).2 with
    | idle hsame => exact ⟨.inl rfl, hsame, rfl⟩
    | fail _ hsame => exact ⟨.inr rfl, hsame, rfl⟩
    | publish hpass =>
        obtain ⟨e, herror⟩ := (s.monitor.fails_pass_iff w).mpr hhindered
        rw [hpass] at herror
        cases herror
  succeeds s now w v s' w' hs hfree hacts := by
    cases (hacts.trace hs).2 with
    | idle hsame => exact .inl ⟨rfl, hsame, rfl⟩
    | fail hhindered => exact absurd hhindered hfree
    | publish hpass hmonitor hfragment hslot =>
        exact .inr ⟨_, rfl, hpass, hmonitor, hfragment, hslot⟩
  shares m w m' w' := Builtin.pass_shares
  whole := h.sound.whole

def countedOnce : Telemetry Builtin × World :=
  let (t, w) := Telemetry.new Builtin.registry none 0 0 Builtin.Success.soleManager
  (Event.request "container_stats_monitor").act t 0 w

def nodesLost : World :=
  { countedOnce.2 with
    engine := { countedOnce.2.engine with nodes := .error (.unsupported "list_nodes") } }

theorem traceless_nodesLost :
    InUse countedOnce.1 nodesLost ∧ countedOnce.1.Traceless nodesLost ∧
      nodesLost.edge = ⟨some "n", some "docker"⟩ ∧
      ∀ m : Builtin, m.asksCluster = true → m.Hindered nodesLost := by
  have hbegin := InUse.begin (w := Builtin.Success.soleManager) none 0 0 rfl
  have huse : InUse countedOnce.1 nodesLost :=
    (hbegin.act (.request "container_stats_monitor") 0).meanwhile rfl
  refine ⟨huse, huse.traceless, rfl, ?_⟩
  intro m hm
  cases m with
  | engineResources supported r => exact .inr ⟨_, rfl⟩
  | containers u =>
      exact .inr (.inr ⟨⟨"n", ["n"], rfl, rfl, List.mem_singleton_self "n"⟩, ⟨_, rfl⟩⟩)
  | _ => cases hm

end Telemetry
end EdgeAgent
