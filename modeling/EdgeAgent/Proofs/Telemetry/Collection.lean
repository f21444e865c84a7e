import EdgeAgent.Monitor.Builtin
import EdgeAgent.Proofs.Payload.Merge
import EdgeAgent.Proofs.Telemetry.Stations

/-! # Collecting the fragments

Between two collections the stations publish whatever and whenever they like. A
collection makes its payload of the newest fragment of each, and its report of those
that have published none since the last one.
-/

namespace EdgeAgent

namespace Telemetry

variable {μ : Type}

/-! ## Slots -/

/-- What is in the slot of a station. -/
def pending (t : Telemetry μ) (name : String) : Option Payload :=
  (t.stations.find? name).bind (·.slot.pending)

def emptied (t : Telemetry μ) : Telemetry μ :=
  { t with stations := t.stations.mapRows fun _ s => { s with slot := {} } }

def names (t : Telemetry μ) : Table (String × Bool) :=
  t.stations.mapRows fun _ s => (s.name, s.enabled)

theorem find?_names (t : Telemetry μ) (name : String) :
    t.names.find? name = (t.stations.find? name).map fun s => (s.name, s.enabled) :=
  Table.find?_mapRows _ _ _

theorem names_of_labels {t t' : Telemetry μ} (h : t'.labels = t.labels) : t'.names = t.names := by
  apply Table.ext_find?
  intro name
  have hname := congrArg (fun l => (l.find? name).map fun l => (l.1, l.2.1)) h
  simp only [find?_labels, Option.map_map] at hname
  rw [find?_names, find?_names]
  exact hname

theorem emptied_atop (t : Telemetry μ) : t.emptied.atop t.pending = t := by
  have hstations : (t.emptied.atop t.pending).stations = t.stations := by
    apply Table.ext_find?
    intro name
    rw [find?_atop, emptied, Table.find?_mapRows, pending]
    cases t.stations.find? name <;> rfl
  show { t with stations := (t.emptied.atop t.pending).stations } = t
  rw [hstations]

theorem pending_atop (t : Telemetry μ) (old : String → Option Payload) (name : String)
    (hold : t.stations.find? name = none → old name = none) :
    (t.atop old).pending name = (t.pending name).or (old name) := by
  rw [pending, pending, find?_atop]
  cases hs : t.stations.find? name with
  | none => simp [hold hs]
  | some s => rfl

/-! ## Records -/

/-- What is recorded of a run: what was published in an event, for each station, or
what was collected, with the report. -/
inductive Entry where
  | published (fragments : String → Option Payload)
  | collected (found : Payload × String)

/-- The newest fragment that a station has published since the last collection; the
record has the last entry first. -/
def newest : List Entry → String → Option Payload
  | [], _ => none
  | .collected _ :: _, _ => none
  | .published fragments :: earlier, name => (fragments name).or (newest earlier name)

/-- The report with one more line, on a monitor that is silent. -/
def addLine (report name : String) : String :=
  report ++ "\tMonitor " ++ name ++ " not sending metrics\n"

/-! ## One collection -/

theorem foldl_collectStation (rows : List (String × Station μ)) (acc : Payload × String)
    (henabled : ∀ r ∈ rows, r.2.enabled = true) (fragments : String → Option Payload)
    (hslots : ∀ r ∈ rows, r.2.slot.pending = fragments r.1) :
    (rows.map (·.2)).foldl collectStation acc =
      (((rows.map (·.1)).filterMap fragments).foldl Payload.merge acc.1,
       ((rows.filter fun r => (fragments r.1).isNone).map (·.2.name)).foldl addLine acc.2) := by
  induction rows generalizing acc with
  | nil => rfl
  | cons r rows ih =>
      have hslot := hslots r List.mem_cons_self
      have hon := henabled r List.mem_cons_self
      have hrest := fun acc => ih acc (fun r hr => henabled r (List.mem_cons_of_mem _ hr))
        fun r hr => hslots r (List.mem_cons_of_mem _ hr)
      rw [List.map_cons, List.foldl_cons, hrest]
      cases hf : fragments r.1 <;> simp [collectStation, addLine, hon, hslot, hf]

def Enabled (t : Telemetry μ) : Prop := ∀ name l, t.names.find? name = some l → l.2 = true

theorem Enabled.station {t : Telemetry μ} (h : t.Enabled) {name : String} {s : Station μ}
    (hs : t.stations.find? name = some s) : s.enabled = true :=
  h name (s.name, s.enabled) (by rw [find?_names, hs, Option.map_some])

/-- What is to be collected when these fragments are the newest ones. -/
def harvest (t : Telemetry μ) (fragments : String → Option Payload) : Payload × String :=
  (Payload.mergeAll (t.names.keys.filterMap fragments),
   ((t.names.rows.filter fun r => (fragments r.1).isNone).map (·.2.1)).foldl addLine "")

theorem collect_eq_harvest {t : Telemetry μ} (henabled : t.Enabled)
    {fragments : String → Option Payload} (h : t.pending = fragments) :
    t.collect.1 = t.harvest fragments := by
  have hfold := foldl_collectStation t.stations.rows ({}, "")
    (fun r hr => henabled.station (Table.find?_eq_some_iff.mpr hr)) fragments ?_
  · have hkeys : t.names.keys = t.stations.rows.map (·.1) := by
      simp [names, Table.keys, Table.mapRows]
    have hrows : (t.names.rows.filter fun r => (fragments r.1).isNone).map (·.2.1) =
        (t.stations.rows.filter fun r => (fragments r.1).isNone).map (·.2.name) := by
      simp [names, Table.mapRows, List.filter_map, Function.comp_def]
    rw [harvest, hkeys, hrows]
    exact hfold
  · intro r hr
    rw [← h, pending, Table.find?_eq_some_iff.mpr hr]
    rfl

theorem collect_names (t : Telemetry μ) : t.collect.2.names = t.names := by
  apply Table.ext_find?
  intro name
  rw [find?_names, find?_names, collect, Table.find?_mapRows]
  cases t.stations.find? name with
  | none => rfl
  | some s =>
      simp only [Option.map_some]
      split <;> rfl

theorem pending_collect {t : Telemetry μ} (henabled : t.Enabled) (name : String) :
    t.collect.2.pending name = none := by
  rw [pending, collect, Table.find?_mapRows]
  cases hs : t.stations.find? name with
  | none => rfl
  | some s => simp [henabled.station hs, Slot.take]

variable [Monitor μ]

/-! ## What may happen between collections -/

/-- Something that lets the stations go on, or is asked of one of them. -/
inductive Event where
  /-- A turn of the stations. -/
  | turn
  /-- A round of passes begins. -/
  | gather
  /-- A pass is asked for from outside. -/
  | request (name : String)
  | askVisit (name : String)
  /-- A visitor hands the fragment over. -/
  | handOver (name : String)
  | leave (name : String)
  | start (name : String)
  | stop (name : String)
  | stopAll
  | setPeriod (period : Nat)

namespace Event

def act (e : Event) (t : Telemetry μ) (now : Nat) (w : World) : Telemetry μ × World :=
  match e with
  | turn => t.turn now w
  | gather => t.gather now w
  | request name => t.modifyIn name w fun s w => s.request .outside now w
  | askVisit name => (t.modify name Station.askVisit, w)
  | handOver name => (t.modify name fun s => s.publish.leave, w)
  | leave name => (t.modify name Station.leave, w)
  | start name => (t.modify name fun s => s.start now, w)
  | stop name => (t.modify name Station.stop, w)
  | stopAll => (t.stopAll, w)
  | setPeriod period => (t.setPeriod period, w)

theorem act_names (e : Event) (t : Telemetry μ) (now : Nat) (w : World) :
    (e.act t now w).1.names = t.names := by
  cases e with
  | turn => exact names_of_labels (t.turn_labels now w).1
  | gather => exact names_of_labels (t.gather_labels now w).1
  | request name =>
      exact names_of_labels (t.modifyIn_labels name w fun s w => s.request_alike .outside now w).1
  | askVisit name => exact names_of_labels (t.modify_labels name fun s => ⟨rfl, rfl, rfl⟩)
  | handOver name =>
      refine names_of_labels (t.modify_labels name fun s => ?_)
      exact (⟨rfl, rfl, rfl⟩ : s.Alike s.publish).trans s.publish.leave_alike
  | leave name => exact names_of_labels (t.modify_labels name Station.leave_alike)
  | start name => exact names_of_labels (t.modify_labels name fun s => s.start_alike now)
  | stop name => exact names_of_labels (t.modify_labels name fun s => ⟨rfl, rfl, rfl⟩)
  | stopAll => exact names_of_labels (t.mapRows_labels fun _ s => ⟨rfl, rfl, rfl⟩)
  | setPeriod period =>
      apply Table.ext_find?
      intro name
      rw [find?_names, find?_names, act, Telemetry.setPeriod, Table.find?_mapRows]
      cases t.stations.find? name <;> rfl

theorem act_atop (e : Event) (t : Telemetry μ) (now : Nat) (w : World)
    (old : String → Option Payload) :
    e.act (t.atop old) now w = ((e.act t now w).1.atop old, (e.act t now w).2) := by
  have modified : ∀ name {f : Station μ → Station μ},
      (∀ s old, f (s.atop old) = (f s).atop old) →
        ((t.atop old).modify name f, w) = ((t.modify name f).atop old, w) :=
    fun name _ hf => congrArg (·, w) (t.modify_atop name old hf)
  cases e with
  | turn => exact t.turn_atop now w old
  | gather => exact t.gather_atop now w old
  | request name =>
      exact t.modifyIn_atop name w old (f := fun s w => s.request .outside now w)
        fun s w old => s.request_atop .outside now w old
  | askVisit name => exact modified name fun _ _ => rfl
  | handOver name => exact modified name fun s old => s.publish.leave_atop old
  | leave name => exact modified name Station.leave_atop
  | start name => exact modified name fun s old => s.start_atop now old
  | stop name => exact modified name fun _ _ => rfl
  | stopAll => exact congrArg (·, w) (t.mapRows_atop old fun _ _ _ => rfl)
  | setPeriod period =>
      exact congrArg (fun t : Telemetry μ => ({ t with period }, w))
        (t.mapRows_atop old (f := fun _ s => s.setPeriod period) fun _ _ _ => rfl)

/-- What the stations publish in an event: the fragments that they leave in their
slots when nothing was there before. -/
def published (e : Event) (t : Telemetry μ) (now : Nat) (w : World) : String → Option Payload :=
  (e.act t.emptied now w).1.pending

/-- What is published stands in the slot instead of what was there before; a slot
into which nothing is put stays as it is. -/
theorem pending_act (e : Event) (t : Telemetry μ) (now : Nat) (w : World) (name : String) :
    (e.act t now w).1.pending name = (e.published t now w name).or (t.pending name) := by
  have hact := e.act_atop t.emptied now w t.pending
  rw [emptied_atop] at hact
  rw [hact]
  refine pending_atop _ _ name fun hnone => ?_
  have hnames := congrArg (·.find? name) (e.act_names t.emptied now w)
  simp only [find?_names, hnone, Option.map_none] at hnames
  rw [emptied, Table.find?_mapRows] at hnames
  rw [pending]
  cases hs : t.stations.find? name with
  | none => rfl
  | some s => simp [hs] at hnames

end Event

/-! ## Beginning -/

theorem setUp_fresh (excluded : List String) (period now : Nat) (registry : List (Registration μ))
    {stations : Table (Station μ)} (w : World)
    (h : ∀ name s, stations.find? name = some s → s.enabled = true ∧ s.slot.pending = none) :
    ∀ name s, (setUp excluded period now registry stations w).1.find? name = some s →
      s.enabled = true ∧ s.slot.pending = none := by
  induction registry generalizing stations w with
  | nil => exact h
  | cons r rest ih =>
      unfold setUp
      split
      · exact ih w h
      · dsimp only
        split
        · rename_i henabled
          refine ih _ ?_
          intro name s hs
          rw [Table.find?_insert] at hs
          split at hs
          · cases hs
            exact ⟨henabled, rfl⟩
          · exact h name s hs
        · exact ih _ h

theorem reviveAll_of_zero {period now : Nat} {registry : List (Registration μ)}
    {stations : Table (Station μ)} {w : World}
    (h : (reviveAll period now registry stations w).1 = 0) :
    (reviveAll period now registry stations w).2.1 = stations := by
  induction registry generalizing stations w with
  | nil => rfl
  | cons r rest ih =>
      unfold reviveAll at h ⊢
      cases hs : stations.find? r.name with
      | none =>
          simp only [hs] at h ⊢
          exact ih h
      | some s =>
          simp only [hs] at h ⊢
          split at h
          · rename_i hhealthy
            rw [if_pos hhealthy]
            exact ih h
          · simp at h

theorem checkHealth_of_zero {t : Telemetry μ} {now : Nat} {w : World}
    (h : (t.checkHealth now w).1 = 0) : (t.checkHealth now w).2.1 = t := by
  unfold checkHealth at h ⊢
  dsimp only at h ⊢
  rw [reviveAll_of_zero h]

/-! ## Runs -/

/-- Runs with their record. No monitor is built anew: a check of the monitors' health
finds all of them running. -/
inductive Reachable (start : Telemetry μ) : Telemetry μ → List Entry → Prop where
  | begin : Reachable start start []
  | act {t : Telemetry μ} {record : List Entry} (h : Reachable start t record) (e : Event)
      (now : Nat) (w : World) :
      Reachable start (e.act t now w).1 (.published (e.published t now w) :: record)
  | check {t : Telemetry μ} {record : List Entry} (h : Reachable start t record) (now : Nat)
      (w : World) (healthy : (t.checkHealth now w).1 = 0) :
      Reachable start (t.checkHealth now w).2.1 record
  | collect {t : Telemetry μ} {record : List Entry} (h : Reachable start t record) :
      Reachable start t.collect.2 (.collected t.collect.1 :: record)

theorem Reachable.slots {start t : Telemetry μ} {record : List Entry} (henabled : start.Enabled)
    (hempty : ∀ name, start.pending name = none) (h : Reachable start t record) :
    t.names = start.names ∧ t.pending = newest record := by
  induction h with
  | begin => exact ⟨rfl, funext hempty⟩
  | act h e now w ih =>
      refine ⟨(e.act_names _ now w).trans ih.1, funext fun name => ?_⟩
      rw [e.pending_act, ih.2]
      rfl
  | check h now w healthy ih =>
      rw [checkHealth_of_zero healthy]
      exact ih
  | collect h ih =>
      obtain ⟨hnames, _⟩ := ih
      refine ⟨(collect_names _).trans hnames, funext fun name => ?_⟩
      refine pending_collect ?_ name
      unfold Enabled
      rw [hnames]
      exact henabled

theorem Reachable.harvested {start t : Telemetry μ} {record : List Entry}
    (henabled : start.Enabled) (hempty : ∀ name, start.pending name = none)
    (h : Reachable start t record) :
    ∀ later found earlier, record = later ++ .collected found :: earlier →
      found = start.harvest (newest earlier) := by
  induction h with
  | begin =>
      intro later found earlier heq
      simp at heq
  | act h e now w ih =>
      intro later found earlier heq
      cases later with
      | nil => simp at heq
      | cons entry later => exact ih later found earlier (List.cons.inj heq).2
  | check h now w healthy ih => exact ih
  | collect h ih =>
      -- The collection that is meant is the last one, or it is in the record before.
      intro later found earlier heq
      cases later with
      | nil =>
          obtain ⟨hfound, rfl⟩ := List.cons.inj heq
          cases hfound
          obtain ⟨hnames, hpending⟩ := h.slots henabled hempty
          rw [harvest, ← hnames]
          refine collect_eq_harvest ?_ hpending
          unfold Enabled
          rw [hnames]
          exact henabled
      | cons entry later => exact ih later found earlier (List.cons.inj heq).2

theorem newest_append_collected (since older : List Entry) (found : Payload × String) :
    newest (since ++ .collected found :: older) = newest since := by
  funext name
  induction since with
  | nil => rfl
  | cons entry since ih =>
      cases entry with
      | published fragments => simp [newest, ih]
      | collected found => rfl

/-- A monitor publishes the fragments of its passes that succeed. Every collection finds the
newest one that each monitor has published since the collection before it, merged in the
order of the names, and reports those that have published none. What was published before
that does not matter any more. -/
theorem collected_newest (registry : List (Registration μ)) (excluded : Option String)
    (period now : Nat) (w : World) {t : Telemetry μ} {later earlier : List Entry}
    {found : Payload × String}
    (h : Reachable (Telemetry.new registry excluded period now w).1 t
      (later ++ .collected found :: earlier)) :
    let start := (Telemetry.new registry excluded period now w).1
    (∀ (s : Station μ) p now w,
        (s.finish p now w).1.slot.pending = (s.yields? p w).or s.slot.pending) ∧
      start.names.keys.Pairwise (· < ·) ∧
      found = start.harvest (newest earlier) ∧
      ∀ since previous older, earlier = since ++ .collected previous :: older →
        found = start.harvest (newest since) := by
  intro start
  have hfresh : ∀ name s, start.stations.find? name = some s →
      s.enabled = true ∧ s.slot.pending = none :=
    setUp_fresh (Exclusion.ofSetting excluded) period now registry w fun _ _ h => nomatch h
  have henabled : start.Enabled := by
    intro name l hl
    rw [find?_names] at hl
    obtain ⟨s, hs, rfl⟩ := Option.map_eq_some_iff.mp hl
    exact (hfresh name s hs).1
  have hempty : ∀ name, start.pending name = none := by
    intro name
    rw [pending]
    cases hs : start.stations.find? name with
    | none => rfl
    | some s => exact (hfresh name s hs).2
  have hfound := h.harvested henabled hempty later found earlier rfl
  refine ⟨Station.finish_pending, List.pairwise_map.mpr start.names.ascending, hfound, ?_⟩
  intro since previous older heq
  rw [hfound, heq, newest_append_collected]

def soleMonitor : Telemetry Builtin :=
  (Telemetry.new [⟨"resources_monitor", fun w => (.load {}, w)⟩] none 0 0 {}).1

def soleReport : Telemetry Builtin := ((Event.request "resources_monitor").act soleMonitor 0 {}).1

theorem collected_newest_again :
    let published := (Event.request "resources_monitor").published soleMonitor 0 {}
    Reachable soleMonitor soleReport.collect.2.collect.2
        [.collected soleReport.collect.2.collect.1, .collected soleReport.collect.1,
          .published published] ∧
      soleReport.collect.1 = soleMonitor.harvest (newest [.published published]) ∧
      soleReport.collect.2.collect.1 = soleMonitor.harvest fun _ => none := by
  intro published
  have hbegin : Reachable soleMonitor soleMonitor [] := .begin
  have hagain := ((hbegin.act (.request "resources_monitor") 0 {}).collect).collect
  have hfirst : Reachable soleMonitor soleReport.collect.2.collect.2
      ([.collected soleReport.collect.2.collect.1] ++
        .collected soleReport.collect.1 :: [.published published]) := hagain
  have hsecond : Reachable soleMonitor soleReport.collect.2.collect.2
      ([] ++ .collected soleReport.collect.2.collect.1 ::
        [.collected soleReport.collect.1, .published published]) := hagain
  exact ⟨hagain, (collected_newest _ none 0 0 {} hfirst).2.2.1,
    (collected_newest _ none 0 0 {} hsecond).2.2.1⟩

end Telemetry
end EdgeAgent
