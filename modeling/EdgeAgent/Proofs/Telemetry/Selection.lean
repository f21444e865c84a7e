import EdgeAgent.Proofs.Clock.Waits
import EdgeAgent.Proofs.Telemetry.Exclusion
import EdgeAgent.Proofs.Telemetry.Health

/-! # Which monitors telemetry has

Telemetry is set up with those monitors of its registry that a text does not exclude and
that are enabled when they are built. It has these monitors, and no others, whatever is
asked of it afterwards.
-/

namespace EdgeAgent.Telemetry

variable {μ : Type}

/-! ## Setting up -/

def admitted (excluded : List String) (registry : List (Registration μ)) :
    List (Registration μ) :=
  registry.filter fun r => !Exclusion.excludes excluded r.name

theorem mem_admitted_iff {excluded : List String} {registry : List (Registration μ)}
    {r : Registration μ} :
    r ∈ admitted excluded registry ↔
      r ∈ registry ∧ ∀ s, Exclusion.IsStem r.name s → s ∉ excluded := by
  rw [admitted, List.mem_filter, Bool.not_eq_true', ← Bool.not_eq_true, Exclusion.excludes_iff]
  grind

variable [Monitor μ]

/-- The stations of monitors that have been built, as far as these are enabled. -/
def opened (period now : Nat) (built : List (String × μ)) : List (String × Station μ) :=
  (built.filter fun b => Monitor.enabled b.2).map fun b => (b.1, Station.new b.2 period now)

theorem mem_opened_iff {period now : Nat} {built : List (String × μ)} {name : String}
    {s : Station μ} :
    (name, s) ∈ opened period now built ↔
      ∃ m, (name, m) ∈ built ∧ Monitor.enabled m = true ∧ s = Station.new m period now := by
  simp only [opened, List.mem_map, List.mem_filter, Prod.mk.injEq]
  constructor
  · rintro ⟨⟨_, m⟩, ⟨hm, henabled⟩, rfl, rfl⟩
    exact ⟨m, hm, henabled, rfl⟩
  · rintro ⟨m, hm, henabled, rfl⟩
    exact ⟨(name, m), ⟨hm, henabled⟩, rfl, rfl⟩

theorem setUp_eq (excluded : List String) (period now : Nat) (registry : List (Registration μ))
    (stations : Table (Station μ)) (w : World) :
    setUp excluded period now registry stations w =
      (stations.insertAll (opened period now (buildAll (admitted excluded registry) w).1),
        (buildAll (admitted excluded registry) w).2) := by
  induction registry generalizing stations w with
  | nil => rfl
  | cons r rest ih =>
      rw [setUp, admitted, List.filter_cons]
      cases Exclusion.excludes excluded r.name with
      | true => exact ih stations w
      | false =>
          simp only [Bool.not_false, if_true, Bool.false_eq_true, if_false, ih, buildAll, opened,
            List.filter_cons]
          have henabled : (Station.new (r.build w).1 period now).enabled =
            Monitor.enabled (r.build w).1 := rfl
          rw [henabled]
          cases Monitor.enabled (r.build w).1 <;> rfl

theorem names_opened_sublist (period now : Nat) (called : List (Registration μ)) (w : World) :
    ((opened period now (buildAll called w).1).map (·.1)).Sublist (called.map (·.name)) := by
  rw [opened, List.map_map, ← names_buildAll called w]
  exact List.filter_sublist.map _

theorem find?_new_eq_some_iff {registry : List (Registration μ)}
    (hunique : (registry.map (·.name)).Nodup) (text : Option String) (period now : Nat)
    (w : World) {name : String} {s : Station μ} :
    (new registry text period now w).1.stations.find? name = some s ↔
      ∃ m, (name, m) ∈ (buildAll (admitted (Exclusion.ofSetting text) registry) w).1 ∧
        Monitor.enabled m = true ∧ s = Station.new m period now := by
  have hdistinct : Table.Distinct (opened period now
      (buildAll (admitted (Exclusion.ofSetting text) registry) w).1) := by
    refine List.pairwise_map.mp (hunique.sublist ?_)
    exact (names_opened_sublist ..).trans (List.filter_sublist.map _)
  rw [new, setUp_eq, Table.find?_insertAll hdistinct, Table.find?_empty, Option.or_none,
    ← mem_opened_iff]
  exact ⟨Table.mem_of_lookRows, Table.lookRows_of_mem hdistinct⟩

/-! ## What is asked of telemetry -/

inductive Call where
  /-- A round of passes, which is waited for. -/
  | gather
  | collect
  | snapshot
  | setPeriod (period : Nat)
  | checkHealth

def Call.make (c : Call) (t : Timeline (Telemetry μ)) : Timeline (Telemetry μ) :=
  match c with
  | gather => awaitGather t
  | collect => t.act fun p _ w => (p.collect.2, w)
  | snapshot => t.act fun p _ w => (p.snapshot w).2
  | setPeriod period => t.act fun p _ w => (p.setPeriod period, w)
  | checkHealth => t.act fun p now w => (p.checkHealth now w).2

/-- One call after the other is made. In between time passes, the surroundings change, and
something is done to the stations from outside. -/
inductive Leads (t : Timeline (Telemetry μ)) : Timeline (Telemetry μ) → Prop
  | refl : Leads t t
  | call {u : Timeline (Telemetry μ)} (h : Leads t u) (c : Call) : Leads t (c.make u)
  | event {u : Timeline (Telemetry μ)} (h : Leads t u) (e : Event) : Leads t (u.act e.act)
  | advance {u : Timeline (Telemetry μ)} (h : Leads t u) (span : Nat) : Leads t (u.advance span)
  | amend {u : Timeline (Telemetry μ)} (h : Leads t u) (f : World → World) : Leads t (u.amend f)

theorem keys_run (t : Timeline (Telemetry μ)) (limit : Option Nat) (done : Telemetry μ → Bool)
    (fuel : Nat) : (t.run limit done fuel).part.stations.keys = t.part.stations.keys := by
  refine Timeline.run_keeps (P := fun u => u.part.stations.keys = t.part.stations.keys)
    (fun u instant hu _ => ?_) done fuel rfl
  exact (keys_of_names (Event.turn.act_names u.part (max u.now instant) u.count.world)).trans hu

theorem keys_advance (t : Timeline (Telemetry μ)) (span : Nat) :
    (t.advance span).part.stations.keys = t.part.stations.keys := by
  unfold Timeline.advance
  split
  · rfl
  · exact keys_run ..

theorem Call.make_keys (c : Call) (t : Timeline (Telemetry μ)) :
    (c.make t).part.stations.keys = t.part.stations.keys := by
  cases c with
  | gather =>
      exact (keys_run ..).trans (keys_of_names (Event.gather.act_names t.part t.now t.count.world))
  | collect => exact keys_of_names (collect_names t.part)
  | snapshot => exact keys_of_names (collect_names t.part)
  | setPeriod period =>
      exact keys_of_names ((Event.setPeriod period).act_names t.part t.now t.count.world)
  | checkHealth => exact checkHealth_keys t.part t.now t.count.world

theorem Leads.keys {t u : Timeline (Telemetry μ)} (h : Leads t u) :
    u.part.stations.keys = t.part.stations.keys := by
  induction h with
  | refl => rfl
  | call _ c ih => exact (c.make_keys _).trans ih
  | @event u _ e ih =>
      exact (keys_of_names (e.act_names u.part u.now u.count.world)).trans ih
  | advance _ span ih => exact (keys_advance _ span).trans ih
  | amend _ f ih => exact ih

/-! ## The selection -/

/-- Telemetry `t` is set up at an instant in surroundings `w`, which becomes `w'`; `excluded`
are the names that the text lists, and `called` the registrations that monitors are built
from. -/
structure Selects (registry : List (Registration μ)) (text : Option String) (period now : Nat)
    (w : World) (excluded : List String) (called : List (Registration μ)) (t : Telemetry μ)
    (w' : World) : Prop where
  listed : ∀ raw, text = some raw → ∀ names, Exclusion.Lists raw names ↔ names = excluded
  unlisted : text = none → excluded = []
  /-- The names with commas between them list the same names. -/
  again : Exclusion.ofText (",".intercalate excluded) = excluded
  order : called.Sublist registry
  /-- The others are excluded by their names up to the last underscore. -/
  spared : ∀ r, r ∈ called ↔ r ∈ registry ∧ ∀ s, Exclusion.IsStem r.name s → s ∉ excluded
  surroundings : w' = (buildAll called w).2.say moduleName .starting ""
  /-- There is a fresh station for each monitor that turns out to be enabled. -/
  chosen : ∀ name s, t.stations.find? name = some s ↔
    ∃ m, (name, m) ∈ (buildAll called w).1 ∧ Monitor.enabled m = true ∧
      s = Station.new m period now
  /-- No monitor is added or removed later on. -/
  lasting : ∀ u v : Timeline (Telemetry μ), u.part = t → Leads u v →
    v.part.stations.keys = t.stations.keys

/-- The monitors of telemetry are those that are registered, not excluded and enabled when
they are built, from the beginning and for good. -/
theorem new_selects {registry : List (Registration μ)} (hunique : (registry.map (·.name)).Nodup)
    (text : Option String) (period now : Nat) (w : World) :
    Selects registry text period now w (Exclusion.ofSetting text)
      (admitted (Exclusion.ofSetting text) registry) (new registry text period now w).1
      (new registry text period now w).2 where
  listed := by
    rintro raw rfl names
    exact Exclusion.lists_iff.trans eq_comm
  unlisted := by
    rintro rfl
    rfl
  again := Exclusion.ofText_intercalate_ofSetting text
  order := List.filter_sublist
  spared _ := mem_admitted_iff
  surroundings := by rw [new, setUp_eq]
  chosen _ _ := find?_new_eq_some_iff hunique text period now w
  lasting u v hu h := hu ▸ h.keys

/-- Quotes within the names, an empty piece, the whole name of a monitor, which is not meant by
it, and a blank that is not a space. -/
def scattered : String := "'network', \"coe\"_resources ,,resources_monitor,tem'perature\u00a0"

def scatteredTimeline : Timeline (Telemetry Builtin) :=
  let w : World := { engineResources := true }
  { part := (new Builtin.registry (some scattered) 60000 0 w).1, world := w }

theorem new_selects_scattered :
    (Builtin.registry.map (·.name)).Nodup ∧
      Exclusion.ofText scattered =
        ["network", "coe_resources", "resources_monitor", "temperature"] ∧
      scatteredTimeline.part.stations.keys =
        ["container_stats_monitor", "nuvlaedge_info_monitor", "resources_monitor",
          "vulnerabilities_monitor"] ∧
      Selects Builtin.registry (some scattered) 60000 0 scatteredTimeline.world
        (Exclusion.ofText scattered) (admitted (Exclusion.ofText scattered) Builtin.registry)
        scatteredTimeline.part
        (new Builtin.registry (some scattered) 60000 0 scatteredTimeline.world).2 ∧
      (Call.checkHealth.make (Call.gather.make scatteredTimeline)).part.stations.keys =
        scatteredTimeline.part.stations.keys := by
  have hunique : (Builtin.registry.map (·.name)).Nodup := by decide
  have hselects := new_selects hunique (some scattered) 60000 0 scatteredTimeline.world
  have hcalls := ((Leads.refl (t := scatteredTimeline)).call .gather).call .checkHealth
  exact ⟨hunique, by decide, by decide, hselects, hselects.lasting _ _ rfl hcalls⟩

end EdgeAgent.Telemetry
