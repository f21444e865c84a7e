import EdgeAgent.Proofs.Telemetry.Collection

/-! # The health of the monitors

A check falls back on the registry for every station that is down, and leaves the others
alone. What it builds may turn out to have nothing to find out any more, and then stands
in its place without running; either way no station is down afterwards.
-/

namespace EdgeAgent

variable {μ : Type}

namespace Station

/-- The station should run, and does not. -/
def isDown (s : Station μ) : Bool := s.enabled && !s.isRunning

variable [Monitor μ]

/-- A station that has just been set up with a monitor, and is started if there is something
to find out. -/
def anew (m : μ) (period now : Nat) : Station μ := (Station.new m period now).start now

theorem isRunning_anew (m : μ) (period now : Nat) :
    (anew m period now).isRunning = Monitor.enabled m := by
  unfold anew start
  cases henabled : (Station.new m period now).enabled with
  | true => exact henabled.symm
  | false => exact henabled.symm

theorem isDown_anew (m : μ) (period now : Nat) : (anew m period now).isDown = false := by
  have henabled : (anew m period now).enabled = Monitor.enabled m := (start_alike _ now).enabled
  rw [isDown, isRunning_anew, henabled, Bool.and_not_self]

end Station

namespace Telemetry

/-! ## Registrations that are called upon -/

def buildAll : List (Registration μ) → World → List (String × μ) × World
  | [], w => ([], w)
  | r :: rest, w =>
    let (m, w) := r.build w
    let (built, w) := buildAll rest w
    ((r.name, m) :: built, w)

theorem names_buildAll (called : List (Registration μ)) (w : World) :
    (buildAll called w).1.map (·.1) = called.map (·.name) := by
  induction called generalizing w with
  | nil => rfl
  | cons r rest ih => exact congrArg (r.name :: ·) (ih (r.build w).2)

/-- The registrations of the stations that are down, the first one of each name. -/
def lacking (stations : Table (Station μ)) : List (Registration μ) → List (Registration μ)
  | [] => []
  | r :: rest =>
    if (stations.find? r.name).any Station.isDown then
      r :: (lacking stations rest).filter (·.name != r.name)
    else lacking stations rest

theorem lacking_sublist (stations : Table (Station μ)) (registry : List (Registration μ)) :
    (lacking stations registry).Sublist registry := by
  induction registry with
  | nil => exact .slnil
  | cons r rest ih =>
      unfold lacking
      split
      · exact (List.filter_sublist.trans ih).cons_cons r
      · exact ih.cons r

theorem nodup_lacking (stations : Table (Station μ)) (registry : List (Registration μ)) :
    ((lacking stations registry).map (·.name)).Nodup := by
  induction registry with
  | nil => exact .nil
  | cons r rest ih =>
      unfold lacking
      split
      · refine List.nodup_cons.mpr ⟨?_, ih.sublist (List.filter_sublist.map _)⟩
        simp
      · exact ih

theorem mem_lacking_iff {stations : Table (Station μ)} {registry : List (Registration μ)}
    {name : String} :
    name ∈ (lacking stations registry).map (·.name) ↔
      name ∈ registry.map (·.name) ∧ (stations.find? name).any Station.isDown = true := by
  induction registry with
  | nil => simp [lacking]
  | cons r rest ih =>
      have hrest : name ∈ ((lacking stations rest).filter (·.name != r.name)).map (·.name) ↔
          name ∈ (lacking stations rest).map (·.name) ∧ name ≠ r.name := by
        simp only [List.mem_map, List.mem_filter, bne_iff_ne]
        grind
      unfold lacking
      by_cases hname : name = r.name
      · subst hname
        split
        · rename_i hdown
          simp [hdown]
        · rename_i hdown
          rw [ih]
          simp [hdown]
      · split
        · rw [List.map_cons, List.mem_cons, hrest, ih]
          simp [hname]
        · rw [ih]
          simp [hname]

theorem lacking_insert (stations : Table (Station μ)) (registry : List (Registration μ))
    (name : String) {s : Station μ} (hs : s.isDown = false) :
    lacking (stations.insert name s) registry =
      (lacking stations registry).filter (·.name != name) := by
  induction registry with
  | nil => rfl
  | cons r rest ih =>
      unfold lacking
      rw [Table.find?_insert, ih]
      by_cases hname : name = r.name
      · subst hname
        rw [if_pos rfl, Option.any_some, hs, if_neg Bool.false_ne_true]
        split
        · simp
        · rfl
      · rw [if_neg hname]
        split
        · simp [Ne.symm hname, List.filter_filter, Bool.and_comm]
        · rfl

/-- The registrations that a check calls upon. -/
def called (t : Telemetry μ) : List (Registration μ) := lacking t.stations t.registry

/-- Every station has a registration of its name. -/
def Listed (t : Telemetry μ) : Prop :=
  ∀ name ∈ t.stations.keys, name ∈ t.registry.map (·.name)

theorem Listed.of_keys {t t' : Telemetry μ} (h : t.Listed)
    (hkeys : t'.stations.keys = t.stations.keys) (hregistry : t'.registry = t.registry) :
    t'.Listed := by
  unfold Listed
  rw [hkeys, hregistry]
  exact h

theorem Listed.mem_called_iff {t : Telemetry μ} (h : t.Listed) {name : String} :
    name ∈ t.called.map (·.name) ↔ ∃ s, t.stations.find? name = some s ∧ s.isDown = true := by
  rw [called, mem_lacking_iff, Option.any_eq_true]
  refine and_iff_right_of_imp ?_
  rintro ⟨s, hs, _⟩
  exact h name (Table.mem_keys_iff.mpr (Option.isSome_of_eq_some hs))

theorem keys_of_names {t t' : Telemetry μ} (h : t'.names = t.names) :
    t'.stations.keys = t.stations.keys := by
  rw [← Table.keys_mapRows t'.stations fun _ s => (s.name, s.enabled),
    ← Table.keys_mapRows t.stations fun _ s => (s.name, s.enabled)]
  exact congrArg Table.keys h

theorem modifyIn_registry (t : Telemetry μ) (name : String) (w : World)
    (f : Station μ → World → Station μ × World) :
    (t.modifyIn name w f).1.registry = t.registry := by
  unfold modifyIn
  split <;> rfl

variable [Monitor μ]

/-! ## What a check does -/

def renew (period now : Nat) (built : List (String × μ)) : List (String × Station μ) :=
  built.map fun b => (b.1, Station.anew b.2 period now)

/-- A station that is built stands under its name before the next one is looked at, so that
a second registration of the name finds it. -/
theorem reviveAll_eq (period now : Nat) (registry : List (Registration μ))
    (stations : Table (Station μ)) (w : World) :
    reviveAll period now registry stations w =
      ((lacking stations registry).length,
        stations.insertAll (renew period now (buildAll (lacking stations registry) w).1),
        (buildAll (lacking stations registry) w).2) := by
  induction registry generalizing stations w with
  | nil => rfl
  | cons r rest ih =>
      unfold reviveAll
      cases hs : stations.find? r.name with
      | none =>
          have hcalled : lacking stations (r :: rest) = lacking stations rest := by
            simp [lacking, hs]
          rw [hcalled]
          exact ih stations w
      | some s =>
          have hup : (!s.enabled || s.isRunning) = !s.isDown := by simp [Station.isDown]
          dsimp only
          rw [hup]
          cases hdown : s.isDown with
          | false =>
              have hcalled : lacking stations (r :: rest) = lacking stations rest := by
                simp [lacking, hs, hdown]
              rw [hcalled]
              exact ih stations w
          | true =>
              have hcalled : lacking stations (r :: rest) = r :: lacking
                  (stations.insert r.name (Station.anew (r.build w).1 period now)) rest := by
                rw [lacking_insert _ _ _ (Station.isDown_anew ..)]
                simp [lacking, hs, hdown]
              rw [hcalled]
              simp only [ih]
              rfl

/-- The stations that a check sets up. -/
def renewals (t : Telemetry μ) (now : Nat) (w : World) : List (String × Station μ) :=
  renew t.period now (buildAll t.called w).1

theorem names_renewals (t : Telemetry μ) (now : Nat) (w : World) :
    (t.renewals now w).map (·.1) = t.called.map (·.name) := by
  rw [← names_buildAll t.called w]
  simp [renewals, renew]

theorem checkHealth_eq (t : Telemetry μ) (now : Nat) (w : World) :
    t.checkHealth now w =
      (t.called.length, { t with stations := t.stations.insertAll (t.renewals now w) },
        (buildAll t.called w).2) := by
  rw [checkHealth, reviveAll_eq]
  rfl

theorem checkHealth_keys (t : Telemetry μ) (now : Nat) (w : World) :
    (t.checkHealth now w).2.1.stations.keys = t.stations.keys := by
  rw [checkHealth_eq]
  refine Table.keys_eq_iff.mpr fun name => ?_
  rw [Table.mem_keys_insertAll, names_renewals, called, mem_lacking_iff, Table.mem_keys_iff]
  cases t.stations.find? name <;> simp

theorem checkHealth_of_up {t : Telemetry μ}
    (h : ∀ name s, t.stations.find? name = some s → s.isDown = false) (now : Nat) (w : World) :
    t.checkHealth now w = (0, t, w) := by
  have hcalled : t.called = [] := by
    refine List.eq_nil_iff_forall_not_mem.mpr fun r hr => ?_
    obtain ⟨-, hdown⟩ := mem_lacking_iff.mp (List.mem_map_of_mem hr)
    cases hs : t.stations.find? r.name with
    | none => simp [hs] at hdown
    | some s => simp [hs, h r.name s hs] at hdown
  rw [checkHealth_eq, renewals, hcalled]
  rfl

/-! ## What is done to telemetry -/

theorem askFirst_registry (t : Telemetry μ) (now : Nat) (w : World) :
    (t.askFirst now w).1.registry = t.registry := by
  unfold askFirst
  split
  · rfl
  · exact modifyIn_registry ..

theorem turn_registry (t : Telemetry μ) (now : Nat) (w : World) :
    (t.turn now w).1.registry = t.registry := by
  unfold turn
  split
  · unfold goOn
    split
    · rfl
    · exact askFirst_registry ..
  · split
    · exact modifyIn_registry ..
    · rfl

theorem Event.act_registry (e : Event) (t : Telemetry μ) (now : Nat) (w : World) :
    (e.act t now w).1.registry = t.registry := by
  cases e with
  | turn => exact turn_registry ..
  | gather => exact askFirst_registry ..
  | request name => exact modifyIn_registry ..
  | askVisit | handOver | leave | start | stop | stopAll | setPeriod => rfl

/-- The telemetry that comes of any use in any surroundings. -/
inductive Arises : Telemetry μ → Prop
  | new (registry : List (Registration μ)) (excluded : Option String) (period now : Nat)
      (w : World) : Arises (new registry excluded period now w).1
  | act {t : Telemetry μ} (h : Arises t) (e : Event) (now : Nat) (w : World) :
      Arises (e.act t now w).1
  | check {t : Telemetry μ} (h : Arises t) (now : Nat) (w : World) :
      Arises (t.checkHealth now w).2.1
  | collect {t : Telemetry μ} (h : Arises t) : Arises t.collect.2
  | snapshot {t : Telemetry μ} (h : Arises t) (w : World) : Arises (t.snapshot w).2.1

theorem keys_setUp (excluded : List String) (period now : Nat) (registry : List (Registration μ))
    (stations : Table (Station μ)) (w : World) {name : String}
    (h : name ∈ (setUp excluded period now registry stations w).1.keys) :
    name ∈ stations.keys ∨ name ∈ registry.map (·.name) := by
  induction registry generalizing stations w with
  | nil => exact .inl h
  | cons r rest ih =>
      unfold setUp at h
      rw [List.map_cons, List.mem_cons]
      split at h
      · exact (ih _ _ h).imp_right .inr
      · rcases ih _ _ h with hkey | hrest
        · split at hkey
          · rw [Table.mem_keys_iff, Table.find?_insert] at hkey
            split at hkey
            · rename_i hname
              exact .inr (.inl hname.symm)
            · exact .inl (Table.mem_keys_iff.mpr hkey)
          · exact .inl hkey
        · exact .inr (.inr hrest)

theorem Arises.listed {t : Telemetry μ} (h : t.Arises) : t.Listed := by
  induction h with
  | new registry excluded period now w =>
      intro name hname
      rcases keys_setUp _ period now registry .empty w hname with hempty | hlisted
      · cases hempty
      · exact hlisted
  | act _ e now w ih =>
      exact ih.of_keys (keys_of_names (e.act_names _ now w)) (e.act_registry _ now w)
  | check _ now w ih => exact ih.of_keys (checkHealth_keys _ now w) rfl
  | collect _ ih => exact ih.of_keys (keys_of_names (collect_names _)) rfl
  | snapshot _ w ih => exact ih.of_keys (keys_of_names (collect_names _)) rfl

/-! ## Checks -/

/-- A check makes `t'` of the telemetry `t`, and `w'` of its surroundings, where `called` are
the registrations that it builds monitors from. -/
structure Restores (now : Nat) (t : Telemetry μ) (w : World) (called : List (Registration μ))
    (restored : Nat) (t' : Telemetry μ) (w' : World) : Prop where
  order : called.Sublist t.registry
  /-- There is one registration for each station that is down. -/
  wanted : (called.map (·.name)).Perm ((t.stations.rows.filter (·.2.isDown)).map (·.1))
  surroundings : w' = (buildAll called w).2
  counted : restored = called.length
  settings : t' = { t with stations := t'.stations }
  names : t'.stations.keys = t.stations.keys
  /-- A station that runs, or has nothing to find out, is the same in every respect. -/
  kept : ∀ name s, t.stations.find? name = some s → s.isDown = false →
    t'.stations.find? name = some s
  /-- One that is down is replaced by one without a past, which runs if its monitor is enabled
  when it is built. -/
  renewed : ∀ name s, t.stations.find? name = some s → s.isDown = true →
    ∃ m, (name, m) ∈ (buildAll called w).1 ∧
      t'.stations.find? name = some ((Station.new m t.period now).start now) ∧
      ((Station.new m t.period now).start now).isRunning = Monitor.enabled m
  /-- Another check has nothing to do. -/
  settled : ∀ later v, t'.checkHealth later v = (0, t', v)

theorem find?_checkHealth_of_up {t : Telemetry μ} {name : String} {s : Station μ}
    (hs : t.stations.find? name = some s) (hup : s.isDown = false) (now : Nat) (w : World) :
    (t.checkHealth now w).2.1.stations.find? name = some s := by
  have hname : name ∉ (t.renewals now w).map (·.1) := by
    rw [names_renewals, called, mem_lacking_iff, hs, Option.any_some, hup]
    exact fun h => Bool.false_ne_true h.2
  rw [checkHealth_eq]
  exact (Table.find?_insertAll_of_notMem hname t.stations).trans hs

theorem Listed.find?_checkHealth_of_down {t : Telemetry μ} (h : t.Listed) {name : String}
    {s : Station μ} (hs : t.stations.find? name = some s) (hdown : s.isDown = true) (now : Nat)
    (w : World) :
    ∃ m, (name, m) ∈ (buildAll t.called w).1 ∧
      (t.checkHealth now w).2.1.stations.find? name = some (Station.anew m t.period now) := by
  have hname := h.mem_called_iff.mpr ⟨s, hs, hdown⟩
  rw [← names_buildAll t.called w] at hname
  obtain ⟨⟨_, m⟩, hm, rfl⟩ := List.mem_map.mp hname
  have hdistinct : Table.Distinct (t.renewals now w) := by
    refine List.pairwise_map.mp ?_
    rw [names_renewals]
    exact nodup_lacking ..
  refine ⟨m, hm, ?_⟩
  rw [checkHealth_eq, Table.find?_insertAll hdistinct,
    Table.lookRows_of_mem hdistinct (List.mem_map_of_mem hm)]
  rfl

theorem Listed.isDown_checkHealth {t : Telemetry μ} (h : t.Listed) (now : Nat) (w : World)
    {name : String} {s : Station μ}
    (hs : (t.checkHealth now w).2.1.stations.find? name = some s) : s.isDown = false := by
  have hname := Table.mem_keys_iff.mpr (Option.isSome_of_eq_some hs)
  rw [checkHealth_keys, Table.mem_keys_iff] at hname
  obtain ⟨old, hold⟩ := Option.isSome_iff_exists.mp hname
  cases hdown : old.isDown with
  | false =>
      rw [find?_checkHealth_of_up hold hdown] at hs
      exact Option.some.inj hs ▸ hdown
  | true =>
      obtain ⟨m, _, hm⟩ := h.find?_checkHealth_of_down hold hdown now w
      rw [hm] at hs
      exact Option.some.inj hs ▸ Station.isDown_anew ..

/-- A check sets every station up anew that is down, counts them, and leaves the others alone.
It finds nothing to do a second time, also if what it has built does not run. -/
theorem checkHealth_restores {t : Telemetry μ} (h : t.Arises) (now : Nat) (w : World) :
    Restores now t w t.called (t.checkHealth now w).1
      (t.checkHealth now w).2.1 (t.checkHealth now w).2.2 where
  order := lacking_sublist ..
  wanted := by
    have hdistinct : ((t.stations.rows.filter (·.2.isDown)).map (·.1)).Nodup :=
      List.pairwise_map.mpr ((Table.distinct_rows t.stations).sublist List.filter_sublist)
    refine (List.perm_ext_iff_of_nodup (nodup_lacking ..) hdistinct).mpr fun name => ?_
    refine h.listed.mem_called_iff.trans ?_
    simp [Table.find?_eq_some_iff]
  surroundings := by rw [checkHealth_eq]
  counted := by rw [checkHealth_eq]
  settings := by rw [checkHealth_eq]
  names := checkHealth_keys t now w
  kept _ _ hs hup := find?_checkHealth_of_up hs hup now w
  renewed name s hs hdown := by
    obtain ⟨m, hm, hfind⟩ := h.listed.find?_checkHealth_of_down hs hdown now w
    exact ⟨m, hm, hfind, Station.isRunning_anew ..⟩
  settled later v := by
    refine checkHealth_of_up (fun _ _ hs => ?_) later v
    exact h.listed.isDown_checkHealth now w hs

/-! ## Monitors in all conditions -/

/-- The loop of one monitor runs, that of another one has ended, and the rest of them have not
been started. -/
def partlyDown : Telemetry Builtin :=
  let t := (Telemetry.new Builtin.registry none 60000 0 { engineResources := true }).1
  let t := ((Event.start "temperature_monitor").act t 0 {}).1
  let t := ((Event.stop "temperature_monitor").act t 0 {}).1
  let t := (Event.turn.act t 0 {}).1
  ((Event.start "network_monitor").act t 0 {}).1

theorem arises_partlyDown : partlyDown.Arises :=
  ((((Arises.new _ none _ _ _).act _ _ _).act _ _ _).act _ _ _).act _ _ _

def condition (t : Telemetry μ) (name : String) : Option (Bool × Bool × Bool) :=
  (t.stations.find? name).map fun s => (s.enabled, s.wasStarted, s.isRunning)

/-- The engine has lost its resources when the check is made. -/
theorem restores_partlyDown :
    partlyDown.condition "network_monitor" = some (true, true, true) ∧
      partlyDown.condition "temperature_monitor" = some (true, true, false) ∧
      partlyDown.condition "coe_resources_monitor" = some (true, false, false) ∧
      (partlyDown.checkHealth 7 {}).1 = 6 ∧
      (partlyDown.checkHealth 7 {}).2.1.condition "coe_resources_monitor" =
        some (false, false, false) ∧
      Restores 7 partlyDown {} partlyDown.called (partlyDown.checkHealth 7 {}).1
        (partlyDown.checkHealth 7 {}).2.1 (partlyDown.checkHealth 7 {}).2.2 :=
  ⟨by decide, by decide, by decide, by decide, by decide,
    checkHealth_restores arises_partlyDown 7 {}⟩

end Telemetry
end EdgeAgent
