import EdgeAgent.Proofs.Worker.Crew
import EdgeAgent.Proofs.Worker.Queue
import EdgeAgent.Proofs.Worker.States

/-! # What healing makes of a crew

A pass goes over the workers that do not run, and builds a unit for each of them. Where
that succeeds and nobody else has the unit, the worker is started anew; where it fails,
the worker stays as it is and the pass goes on. Nobody has to wait, for in a crew only
guests, and the loop while it wants a cycle, wait for a unit.
-/

namespace EdgeAgent

variable {υ π α : Type}

namespace Worker

/-- What a guest does. -/
inductive Visit (now : Nat) (s : Worker υ π α) : Worker υ π α → Prop
  | borrow : Visit now s (s.borrow now)
  | work (unit : υ) : s.isLent = true → Visit now s { s with unit }
  | giveBack : Visit now s (s.giveBack now)
  /-- A guest gives up waiting for the unit. -/
  | withdraw (first : Claim υ π) (before after : List (Claim υ π)) :
      s.claims = first :: (before ++ .guest :: after) →
        Visit now s { s with claims := first :: (before ++ after) }

/-- Only guests, and the loop while it wants a cycle, wait for the unit. -/
def Regular (s : Worker υ π α) : Prop :=
  ∃ param period, s.Serves (fun _ _ => True) param period

theorem Regular.queued {s : Worker υ π α} (h : s.Regular) : s.Queued := by
  obtain ⟨_, _, hs⟩ := h
  exact hs.queued

theorem Visit.regular {s t : Worker υ π α} {now : Nat} (h : s.Visit now t) (hs : s.Regular) :
    t.Regular := by
  obtain ⟨param, period, hs⟩ := hs
  refine ⟨param, period, ?_⟩
  cases h with
  | borrow => exact hs.borrow now
  | work unit => exact hs.withUnit trivial
  | giveBack => exact hs.giveBack now
  | withdraw first before after hclaims =>
      have hcycles := hs.queued.cycles
      rw [hclaims] at hcycles
      refine ⟨⟨?_, fun hcycling => ?_, hs.queued.enduring⟩, trivial, hs.param, hs.period, hs.course⟩
      · rw [← List.cons_append, List.filter_append] at hcycles ⊢
        exact hcycles
      · obtain ⟨rest, hrest⟩ := claims_of_hasUnit (hs.queued.holding hcycling)
        obtain rfl := (List.cons.inj (hclaims.symm.trans hrest)).1
        rfl

end Worker

namespace Crew

variable [Craft υ π α]

/-! ## Crews in use -/

/-- No guest has, or waits for, the unit of a worker that does not run. -/
def Free (c : Crew υ π α) : Prop :=
  ∀ name s, c.workers.find? name = some s → s.isRunning = false → ∀ d ∈ s.claims, d.isGuest = false

/-- What is done to a crew, and what its workers do by themselves. -/
inductive Step [BEq α] [Timed υ] (now : Nat) (c : Crew υ π α) : Crew υ π α → Prop
  | add (name : String) (param : π) (actions : List α) (period : Nat) (delay : Worker.Delay)
      (w : World) : Step now c (c.add name param actions period delay now w).2.1
  | start : Step now c (c.start now)
  | stop : Step now c c.stop
  | confirmEnd : Step now c c.confirmEnd.2
  | editPeriod (name : String) (period : Nat) : Step now c (c.editPeriod name period).2
  | heal (w : World) : c.Free → Step now c (c.heal now w).2.1
  | visit (name : String) (s t : Worker υ π α) :
      c.workers.find? name = some s → s.Visit now t →
        Step now c { c with workers := c.workers.insert name t }
  | turn (w : World) : Step now c (c.turn now w).1

/-- The crews in use. -/
inductive InUse [BEq α] [Timed υ] : Crew υ π α → Nat → Prop
  | empty (stopTimeout now : Nat) : InUse { stopTimeout } now
  | later {c : Crew υ π α} {now later : Nat} : InUse c now → now ≤ later → InUse c later
  | step {c c' : Crew υ π α} {now : Nat} : InUse c now → Step now c c' → InUse c' now

def Regular (c : Crew υ π α) : Prop := ∀ name s, c.workers.find? name = some s → s.Regular

omit [Craft υ π α] in
theorem Regular.insert {c : Crew υ π α} (h : c.Regular) (name : String) {s : Worker υ π α}
    (hs : s.Regular) : ({ c with workers := c.workers.insert name s } : Crew υ π α).Regular := by
  intro other t ht
  rw [Table.find?_insert] at ht
  split at ht
  · exact Option.some.inj ht ▸ hs
  · exact h other t ht

omit [Craft υ π α] in
theorem Regular.mapRows {c : Crew υ π α} (h : c.Regular)
    {f : String → Worker υ π α → Worker υ π α}
    (hf : ∀ name s, s.Regular → (f name s).Regular) :
    ({ c with workers := c.workers.mapRows f } : Crew υ π α).Regular := by
  intro name t ht
  rw [Table.find?_mapRows] at ht
  obtain ⟨s, hs, rfl⟩ := Option.map_eq_some_iff.mp ht
  exact hf name s (h name s hs)

theorem Step.regular [BEq α] [Timed υ] {c c' : Crew υ π α} {now : Nat} (h : Step now c c')
    (hc : c.Regular) : c'.Regular := by
  have hpreserves : Worker.Preserves (υ := υ) fun _ _ => True :=
    fun _ _ _ _ _ _ _ _ _ _ => trivial
  cases h with
  | add name param actions period delay w =>
      unfold Crew.add
      split
      · exact hc
      · rcases hnew : Worker.new (υ := υ) name param actions period delay now w with ⟨e | s, w'⟩
        · exact hc
        · have hs := (Worker.Serves.new (F := fun _ _ => True) hnew (fun _ _ _ _ => trivial)
            c.stopTimeout).1
          exact hc.insert name ⟨param, period, hs⟩
  | start =>
      refine hc.mapRows fun _ s hs => ?_
      obtain ⟨param, period, hs⟩ := hs
      exact ⟨param, period, hs.start now⟩
  | stop =>
      refine hc.mapRows fun _ s hs => ?_
      obtain ⟨param, period, hs⟩ := hs
      exact ⟨param, period, hs.stop⟩
  | confirmEnd =>
      refine hc.mapRows fun _ s hs => ?_
      obtain ⟨param, period, hs⟩ := hs
      exact ⟨param, period, hs.confirmEnd⟩
  | editPeriod name period =>
      unfold Crew.editPeriod
      split
      · refine hc.mapRows fun other s hs => ?_
        split
        · obtain ⟨param, old, hs⟩ := hs
          exact ⟨param, period, hs.adopt trivial⟩
        · exact hs
      · exact hc
  | heal w hfree =>
      intro name t ht
      rcases find?_heal c now w name with hkept | ⟨s, s', w₁, w₂, hs, hstands, hreset, hs', _⟩
      · exact hc name t (hkept ▸ ht)
      · obtain rfl := Option.some.inj (hs'.symm.trans ht)
        obtain ⟨param, period, hserves⟩ := hc name s hs
        have hall := (hserves.reset hstands (hfree name s hs hstands) hreset).2.2
        exact ⟨param, period, hall _ trivial⟩
  | visit name s t hs hvisit => exact hc.insert name (hvisit.regular (hc name s hs))
  | turn w =>
      intro name t ht
      rcases find?_turn c now w name with hkept | ⟨s, hs, hs'⟩
      · exact hc name t (hkept ▸ ht)
      · obtain rfl := Option.some.inj (hs'.symm.trans ht)
        obtain ⟨param, period, hserves⟩ := hc name s hs
        exact ⟨param, period, hserves.turn hpreserves (fun _ _ _ _ _ => trivial) now w⟩

theorem InUse.regular [BEq α] [Timed υ] {c : Crew υ π α} {now : Nat} (h : c.InUse now) :
    c.Regular := by
  induction h with
  | empty =>
      intro name s hs
      cases hs
  | later _ _ ih => exact ih
  | step _ hstep ih => exact hstep.regular ih

/-! ## A pass over the workers -/

/-- What comes of building units for the workers among some rows that do not run. -/
def builds (now : Nat) :
    List (String × Worker υ π α) → World → List (String × Except UnitError υ)
  | [], _ => []
  | (name, s) :: rest, w =>
    if s.isRunning then builds now rest w
    else
      let (result, w) := Craft.build s.param now w
      (name, result) :: builds now rest w

theorem names_builds (now : Nat) (rows : List (String × Worker υ π α)) (w : World) :
    (builds now rows w).map (·.1) = (rows.filter (!·.2.isRunning)).map (·.1) := by
  induction rows generalizing w with
  | nil => rfl
  | cons row rows ih =>
      obtain ⟨name, s⟩ := row
      unfold builds
      cases hrunning : s.isRunning with
      | true => simp [hrunning, ih]
      | false => simp [hrunning, ih]

theorem mem_builds {now : Nat} {rows : List (String × Worker υ π α)} {w : World} {name : String}
    {result : Except UnitError υ} (h : (name, result) ∈ builds now rows w) :
    ∃ s, (name, s) ∈ rows ∧ s.isRunning = false ∧
      ∃ w₁ w₂, Craft.build s.param now w₁ = (result, w₂) := by
  induction rows generalizing w with
  | nil => cases h
  | cons row rows ih =>
      obtain ⟨n, s⟩ := row
      unfold builds at h
      split at h
      · obtain ⟨t, hmem, ht⟩ := ih h
        exact ⟨t, List.mem_cons_of_mem _ hmem, ht⟩
      · rename_i hstands
        rcases List.mem_cons.mp h with heq | h
        · cases heq
          exact ⟨s, List.mem_cons_self, eq_false_of_ne_true hstands, w, _, rfl⟩
        · obtain ⟨t, hmem, ht⟩ := ih h
          exact ⟨t, List.mem_cons_of_mem _ hmem, ht⟩

theorem distinct_builds (now : Nat) {rows : List (String × Worker υ π α)}
    (h : Table.Distinct rows) (w : World) : Table.Distinct (builds now rows w) := by
  have hnames : ((builds now rows w).map (·.1)).Pairwise (· ≠ ·) := by
    rw [names_builds]
    exact List.pairwise_map.mpr (h.sublist List.filter_sublist)
  exact List.pairwise_map.mp hnames

def Ready (rows : List (String × Worker υ π α)) : Prop :=
  ∀ row ∈ rows, row.2.isRunning = false → row.2.Queued ∧ ∀ d ∈ row.2.claims, d.isGuest = false

theorem healRows_cons {now : Nat} {name : String} {s : Worker υ π α}
    {rows : List (String × Worker υ π α)} (h : Ready ((name, s) :: rows))
    (workers : Table (Worker υ π α)) (w : World) :
    healRows now ((name, s) :: rows) workers w =
      if s.isRunning then healRows now rows workers w
      else
        match Craft.build s.param now w with
        | (.error _, w) => healRows now rows workers w
        | (.ok fresh, w) =>
          ((healRows now rows (workers.insert name (s.revive fresh now)) w).1 + 1,
            (healRows now rows (workers.insert name (s.revive fresh now)) w).2) := by
  rw [healRows]
  split
  · rfl
  · rename_i hstands
    obtain ⟨hqueued, hguests⟩ := h (name, s) List.mem_cons_self (eq_false_of_ne_true hstands)
    rw [hqueued.reset_eq (eq_false_of_ne_true hstands) hguests]
    rcases Craft.build (υ := υ) s.param now w with ⟨e | fresh, w'⟩ <;> rfl

omit [Craft υ π α] in
theorem Ready.tail {row : String × Worker υ π α} {rows : List (String × Worker υ π α)}
    (h : Ready (row :: rows)) : Ready rows :=
  fun r hr => h r (List.mem_cons_of_mem _ hr)

theorem healRows_count {now : Nat} {rows : List (String × Worker υ π α)} (h : Ready rows)
    (workers : Table (Worker υ π α)) (w : World) :
    (healRows now rows workers w).1 = (builds now rows w).countP (·.2.isOk) := by
  induction rows generalizing workers w with
  | nil => rfl
  | cons row rows ih =>
      obtain ⟨name, s⟩ := row
      rw [healRows_cons h, builds]
      split
      · exact ih h.tail workers w
      · rcases Craft.build (υ := υ) s.param now w with ⟨e | fresh, w'⟩
        · exact (ih h.tail workers w').trans (List.countP_cons_of_neg Bool.false_ne_true).symm
        · exact (congrArg (· + 1) (ih h.tail _ w')).trans (List.countP_cons_of_pos rfl).symm

theorem find?_healRows_of_not_built {now : Nat} {rows : List (String × Worker υ π α)}
    (h : Ready rows) {workers : Table (Worker υ π α)} {w : World} {name : String}
    (hname : ∀ fresh, (name, .ok fresh) ∉ builds now rows w) :
    (healRows now rows workers w).2.1.find? name = workers.find? name := by
  induction rows generalizing workers w with
  | nil => rfl
  | cons row rows ih =>
      obtain ⟨n, s⟩ := row
      rw [healRows_cons h]
      rw [builds] at hname
      split
      · rename_i hrunning
        rw [if_pos hrunning] at hname
        exact ih h.tail hname
      · rename_i hstands
        rw [if_neg hstands] at hname
        rcases hbuild : Craft.build (υ := υ) s.param now w with ⟨e | fresh, w'⟩
        all_goals
          simp only [hbuild] at hname
          have hrest : ∀ u, (name, .ok u) ∉ builds now rows w' :=
            fun u hu => hname u (List.mem_cons_of_mem _ hu)
        · exact ih h.tail hrest
        · have hne : n ≠ name := by
            rintro rfl
            exact hname fresh List.mem_cons_self
          refine (ih h.tail hrest).trans ?_
          rw [Table.find?_insert, if_neg hne]

theorem find?_healRows_of_built {now : Nat} {rows : List (String × Worker υ π α)}
    (h : Ready rows) (hdistinct : Table.Distinct rows) {workers : Table (Worker υ π α)} {w : World}
    {name : String} {s : Worker υ π α} {fresh : υ} (hs : (name, s) ∈ rows)
    (hbuilt : (name, .ok fresh) ∈ builds now rows w) :
    (healRows now rows workers w).2.1.find? name = some (s.revive fresh now) := by
  induction rows generalizing workers w with
  | nil => cases hs
  | cons row rows ih =>
      obtain ⟨n, t⟩ := row
      obtain ⟨hfirst, hrest⟩ := List.pairwise_cons.mp hdistinct
      rw [healRows_cons h]
      rw [builds] at hbuilt
      rcases List.mem_cons.mp hs with heq | hs
      · cases heq
        -- Names are distinct, so that no unit for this worker is built further on.
        have hothers : ∀ {r : Except UnitError υ} {w'}, (name, r) ∉ builds now rows w' := by
          intro r w' hr
          obtain ⟨u, hu, _⟩ := mem_builds hr
          exact hfirst (name, u) hu rfl
        split
        · rename_i hrunning
          rw [if_pos hrunning] at hbuilt
          exact (hothers hbuilt).elim
        · rename_i hstands
          rw [if_neg hstands] at hbuilt
          rcases hbuild : Craft.build (υ := υ) s.param now w with ⟨e | u, w'⟩
          all_goals
            simp only [hbuild] at hbuilt
            rcases List.mem_cons.mp hbuilt with heq | hlater
          · cases heq
          · exact (hothers hlater).elim
          · cases heq
            refine (find?_healRows_of_not_built h.tail fun _ => hothers).trans ?_
            rw [Table.find?_insert, if_pos rfl]
          · exact (hothers hlater).elim
      · have hne : n ≠ name := hfirst (name, s) hs
        split
        · rename_i hrunning
          rw [if_pos hrunning] at hbuilt
          exact ih h.tail hrest hs hbuilt
        · rename_i hstands
          rw [if_neg hstands] at hbuilt
          rcases hbuild : Craft.build (υ := υ) t.param now w with ⟨e | u, w'⟩
          all_goals
            simp only [hbuild] at hbuilt
            rcases List.mem_cons.mp hbuilt with heq | hlater
            · exact (hne (congrArg Prod.fst heq).symm).elim
            · exact ih h.tail hrest hs hlater

theorem healRows_of_running {now : Nat} {rows : List (String × Worker υ π α)}
    (h : ∀ row ∈ rows, row.2.isRunning = true) (workers : Table (Worker υ π α)) (w : World) :
    healRows now rows workers w = (0, workers, w) := by
  induction rows with
  | nil => rfl
  | cons row rows ih =>
      obtain ⟨name, s⟩ := row
      obtain ⟨hs, hrest⟩ := List.forall_mem_cons.mp h
      rw [healRows, if_pos hs]
      exact ih hrest

/-! ## Healing -/

/-- Healing makes `c'` of the crew `c`, where `built` is what came of the units. -/
structure Heals (now : Nat) (c : Crew υ π α) (built : List (String × Except UnitError υ))
    (healed : Nat) (c' : Crew υ π α) : Prop where
  /-- For each worker that does not run, a unit is built from its own parameters. -/
  tried : built.map (·.1) = (c.workers.rows.filter (!·.2.isRunning)).map (·.1)
  attempt : ∀ name s result, c.workers.find? name = some s → (name, result) ∈ built →
    ∃ w w', Craft.build s.param now w = (result, w')
  names : ∀ name, c'.workers.contains name = c.workers.contains name
  running : ∀ name s, c.workers.find? name = some s → s.isRunning = true →
    c'.workers.find? name = some s
  failed : ∀ name s e, c.workers.find? name = some s → (name, .error e) ∈ built →
    c'.workers.find? name = some s
  /-- The worker is as before, its period included, but for a fresh unit, no errors and a
  loop that has just been started. -/
  revived : ∀ name s fresh, c.workers.find? name = some s → (name, .ok fresh) ∈ built →
    c'.workers.find? name = some (s.revive fresh now)
  count : healed = built.countP (·.2.isOk)
  again : (∀ b ∈ built, b.2.isOk = true) → ∀ later w, c'.heal later w = (0, c', w)

theorem InUse.heals [BEq α] [Timed υ] {c : Crew υ π α} {now : Nat} (h : c.InUse now)
    (hfree : c.Free) (w : World) :
    c.Heals now (builds now c.workers.rows w) (c.heal now w).1 (c.heal now w).2.1 := by
  have hready : Ready c.workers.rows := by
    intro row hrow hstands
    have hs := Table.find?_eq_some_iff.mpr hrow
    exact ⟨(h.regular row.1 row.2 hs).queued, hfree row.1 row.2 hs hstands⟩
  have hdistinct := Table.distinct_rows c.workers
  have hkept : ∀ name, (∀ fresh, (name, .ok fresh) ∉ builds now c.workers.rows w) →
      (c.heal now w).2.1.workers.find? name = c.workers.find? name :=
    fun name hname => find?_healRows_of_not_built hready hname
  have hrevived : ∀ name s fresh, c.workers.find? name = some s →
      (name, .ok fresh) ∈ builds now c.workers.rows w →
        (c.heal now w).2.1.workers.find? name = some (s.revive fresh now) :=
    fun name s fresh hs hbuilt =>
      find?_healRows_of_built hready hdistinct (Table.find?_eq_some_iff.mp hs) hbuilt
  have hall : (∀ b ∈ builds now c.workers.rows w, b.2.isOk = true) →
      ∀ row ∈ (c.heal now w).2.1.workers.rows, row.2.isRunning = true := by
    intro hok row hrow
    have hrow := Table.find?_eq_some_iff.mpr hrow
    by_cases hbuilt : ∃ fresh, (row.1, .ok fresh) ∈ builds now c.workers.rows w
    · obtain ⟨fresh, hbuilt⟩ := hbuilt
      obtain ⟨s, hs, _⟩ := mem_builds hbuilt
      have hs := hrevived row.1 s fresh (Table.find?_eq_some_iff.mpr hs) hbuilt
      rw [Option.some.inj (hrow.symm.trans hs)]
      rfl
    · rw [hkept row.1 (not_exists.mp hbuilt), Table.find?_eq_some_iff] at hrow
      cases hrunning : row.2.isRunning with
      | true => rfl
      | false =>
          have hname : row.1 ∈ (builds now c.workers.rows w).map (·.1) := by
            rw [names_builds]
            exact List.mem_map.mpr ⟨row, List.mem_filter.mpr ⟨hrow, by simp [hrunning]⟩, rfl⟩
          obtain ⟨⟨name, result⟩, hmem, rfl⟩ := List.mem_map.mp hname
          cases result with
          | error e => cases hok _ hmem
          | ok fresh => exact (hbuilt ⟨fresh, hmem⟩).elim
  refine ⟨names_builds .., ?_, ?_, ?_, ?_, hrevived, healRows_count hready .., ?_⟩
  · intro name s result hs hbuilt
    obtain ⟨t, ht, _, w₁, w₂, hbuild⟩ := mem_builds hbuilt
    obtain rfl := Option.some.inj (hs.symm.trans (Table.find?_eq_some_iff.mpr ht))
    exact ⟨w₁, w₂, hbuild⟩
  · intro name
    by_cases hbuilt : ∃ fresh, (name, .ok fresh) ∈ builds now c.workers.rows w
    · obtain ⟨fresh, hbuilt⟩ := hbuilt
      obtain ⟨s, hs, _⟩ := mem_builds hbuilt
      have hs := Table.find?_eq_some_iff.mpr hs
      rw [Table.contains, Table.contains, hrevived name s fresh hs hbuilt, hs]
      rfl
    · rw [Table.contains, Table.contains, hkept name (not_exists.mp hbuilt)]
  · intro name s hs hrunning
    refine (hkept name fun fresh hbuilt => ?_).trans hs
    obtain ⟨t, ht, hstands, _⟩ := mem_builds hbuilt
    obtain rfl := Option.some.inj (hs.symm.trans (Table.find?_eq_some_iff.mpr ht))
    rw [hrunning] at hstands
    cases hstands
  · intro name s e hs herror
    refine (hkept name fun fresh hbuilt => ?_).trans hs
    have hdistinct := distinct_builds now hdistinct w
    have hboth := (Table.lookRows_of_mem hdistinct herror).symm.trans
      (Table.lookRows_of_mem hdistinct hbuilt)
    cases hboth
  · intro hok later w'
    have hpass : healRows later (c.heal now w).2.1.workers.rows (c.heal now w).2.1.workers w' =
        (0, (c.heal now w).2.1.workers, w') := healRows_of_running (hall hok) _ w'
    rw [heal, hpass]

/-! ## A clock that runs, and two bells that do not -/

def brokenTrack : Simulation.UnitTrack :=
  ⟨["Tick"], ⟨[⟨0, .fail (.failed "no bell" none)⟩]⟩, [], [], []⟩

def brokenWorld : World where
  simulation := { units := Table.empty.insert "bell" brokenTrack }

def addPart (c : Crew SimulatedUnit SimulatedParam String) (name : String) :
    Crew SimulatedUnit SimulatedParam String :=
  (c.add name ⟨name, "first", ["Tick"]⟩ ["Tick"] (Duration.ofSeconds 20) (.given 0) 0 {}).2.1

def belfry : Crew SimulatedUnit SimulatedParam String :=
  addPart (addPart ((addPart {} "clock").start 0) "bell") "gong"

theorem inUse_belfry : belfry.InUse 0 := by
  have hclock : (addPart {} "clock").InUse 0 := (InUse.empty _ 0).step (.add ..)
  have hstarted : ((addPart {} "clock").start 0).InUse 0 := hclock.step .start
  exact (hstarted.step (.add ..)).step (.add ..)

theorem free_belfry : belfry.Free := by
  intro name s hs _ d hd
  have hempty : ∀ row ∈ belfry.workers.rows, row.2.claims.isEmpty = true := by decide
  have hclaims := List.isEmpty_iff.mp (hempty (name, s) (Table.find?_eq_some_iff.mp hs))
  rw [hclaims] at hd
  cases hd

theorem heals_belfry :
    belfry.InUse 0 ∧ belfry.Free ∧ belfry.isRunning "clock" = true ∧
      (belfry.heal 0 brokenWorld).1 = 1 ∧
      (belfry.heal 0 brokenWorld).2.1.isRunning "bell" = false ∧
      (belfry.heal 0 brokenWorld).2.1.isRunning "gong" = true ∧
      belfry.Heals 0 (builds 0 belfry.workers.rows brokenWorld) (belfry.heal 0 brokenWorld).1
        (belfry.heal 0 brokenWorld).2.1 :=
  ⟨inUse_belfry, free_belfry, by decide, by decide, by decide, by decide,
    inUse_belfry.heals free_belfry brokenWorld⟩

end Crew
end EdgeAgent
