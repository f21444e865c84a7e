import EdgeAgent.Proofs.Data.Table
import EdgeAgent.Proofs.Monitor.Hindered

/-! # Sensors that are not there any more

The monitors of temperatures and of power rails keep what they have read. A reading gives way
to a later one of the same zone or metric, but is never given up. So they report what the
sensors tell now as long as all of those that were ever read still tell something.
-/

namespace EdgeAgent

namespace Table

variable {α : Type}

/-- Readings that were put into a table one after the other, the last ones first. -/
def pile : List (List (String × α)) → Table α
  | [] => empty
  | r :: rs => (pile rs).insertAll r

theorem find?_pile (rs : List (List (String × α))) (name : String) :
    (pile rs).find? name = rs.findSome? fun r => (ofList r).find? name := by
  induction rs with
  | nil => rfl
  | cons r rs ih =>
      rw [pile, find?_insertAll_ofList, ih, List.findSome?_cons]
      cases (ofList r).find? name <;> rfl

theorem mem_keys_pile {rs : List (List (String × α))} {name : String} :
    name ∈ (pile rs).keys ↔ ∃ r ∈ rs, name ∈ r.map (·.1) := by
  induction rs with
  | nil => simp [pile, keys, empty]
  | cons r rs ih => simp only [pile, mem_keys_insertAll, ih, List.exists_mem_cons_iff]

/-- The last readings are all there is if they are of everything that was read before. -/
theorem pile_cons_eq {r : List (String × α)} {rs : List (List (String × α))}
    (h : (pile (r :: rs)).keys = (pile [r]).keys) : pile (r :: rs) = pile [r] := by
  apply ext_find?
  intro name
  have hlast : (ofList r).find? name = (pile [r]).find? name := rfl
  have hknown : ((pile (r :: rs)).find? name).isSome = ((pile [r]).find? name).isSome := by
    rw [Bool.eq_iff_iff, ← mem_keys_iff, ← mem_keys_iff, h]
  rw [pile, find?_insertAll_ofList, hlast] at hknown ⊢
  cases hfound : (pile [r]).find? name with
  | some a => rfl
  | none => simpa [hfound] using hknown

theorem keys_pile_cons_iff {r : List (String × α)} {rs : List (List (String × α))} :
    (pile (r :: rs)).keys = (pile [r]).keys ↔
      ∀ before ∈ rs, ∀ name ∈ before.map (·.1), name ∈ r.map (·.1) := by
  rw [keys_eq_iff]
  simp only [mem_keys_pile, List.exists_mem_cons_iff, List.not_mem_nil, false_and, exists_false,
    or_false]
  constructor
  · intro h before hbefore name hname
    exact (h name).mp (.inr ⟨before, hbefore, hname⟩)
  · intro h name
    refine ⟨?_, .inl⟩
    rintro (hname | ⟨before, hbefore, hname⟩)
    · exact hname
    · exact h before hbefore name hname

theorem pile_eq_empty_iff {rs : List (List (String × α))} :
    pile rs = empty ↔ ∀ r ∈ rs, r = [] := by
  rw [eq_empty_iff, List.eq_nil_iff_forall_not_mem]
  simp only [mem_keys_pile, not_exists, not_and]
  refine ⟨fun h r hr => ?_, fun h name r hr => by simp [h r hr]⟩
  exact List.map_eq_nil_iff.mp (List.eq_nil_iff_forall_not_mem.mpr fun name => h name r hr)

/-! ## Tables that are reported -/

/-- A report of a table. There is none of an empty table, and the names of the table can be
seen from it. -/
structure Shown (report : Table α → Payload → Payload) : Prop where
  empty : ∀ p, report empty p = p
  keys : ∀ {s t : Table α}, report s {} = report t {} → s.keys = t.keys

variable {report : Table α → Payload → Payload}

theorem Shown.pile_cons_iff (h : Shown report) {r : List (String × α)}
    {rs : List (List (String × α))} :
    (∀ p, report (pile (r :: rs)) p = report (pile [r]) p) ↔
      ∀ before ∈ rs, ∀ name ∈ before.map (·.1), name ∈ r.map (·.1) := by
  rw [← keys_pile_cons_iff]
  exact ⟨fun hsame => h.keys (hsame {}), fun hkeys p => by rw [pile_cons_eq hkeys]⟩

theorem Shown.pile_eq_self_iff (h : Shown report) {rs : List (List (String × α))} :
    (∀ p, report (pile rs) p = p) ↔ ∀ r ∈ rs, r = [] := by
  rw [← pile_eq_empty_iff]
  refine ⟨fun hself => ?_, fun hempty p => by rw [hempty, h.empty]⟩
  exact eq_empty_iff.mpr (h.keys ((hself {}).trans (h.empty {}).symm))

/-- What is told of the rows, if there are any, tells their names, as long as that of each row
tells its name. -/
theorem keys_eq_of_told {γ : Type} {f : String → α → Json} {name? : Json → Option String}
    (hname : ∀ name a, name? (f name a) = some name) {wrap : List Json → γ}
    (hwrap : Function.Injective wrap) {s t : Table α}
    (h : (if s.isEmpty then none else some (wrap (s.rows.map fun r => f r.1 r.2))) =
      if t.isEmpty then none else some (wrap (t.rows.map fun r => f r.1 r.2))) :
    s.keys = t.keys := by
  unfold isEmpty at h
  cases hs : s.rows with
  | nil =>
      cases ht : t.rows with
      | nil => rw [keys, keys, hs, ht]
      | cons => simp [hs, ht] at h
  | cons =>
      cases ht : t.rows with
      | nil => simp [hs, ht] at h
      | cons =>
          have htold : (s.rows.map fun r => f r.1 r.2) = t.rows.map fun r => f r.1 r.2 := by
            apply hwrap
            simpa [hs, ht] using h
          have hnames := congrArg (List.filterMap name?) htold
          simpa [List.filterMap_map, Function.comp_def, hname, keys] using hnames

end Table

/-! ## What the sensors tell -/

theorem Payload.value_ite_put (isEmpty : Bool) (a : Attribute) (v : a.Carrier) :
    (if isEmpty then {} else ({} : Payload).put a v).value a =
      if isEmpty then none else some v := by
  cases isEmpty with
  | true => rfl
  | false => exact Payload.value_set_self _ _ _

namespace Temperatures

/-- The temperatures that a pass finds, none if it fails. -/
def found (w : World) : List (String × Double) :=
  if w.files.exists? (folder w.hostRoot) then
    (readZones w.files w.hostRoot).toOption.getD []
  else w.host.sensors

theorem value_populate (t : Temperatures) :
    (t.populate {}).value .temperatures = if t.zones.isEmpty then none else some t.toList :=
  Payload.value_ite_put _ _ _

def zoneOf? (j : Json) : Option String := (j.member? "thermal-zone").bind Json.text?

theorem zoneOf?_zoneJson (zone : String) (x : Double) : zoneOf? (zoneJson zone x) = some zone := by
  rw [zoneOf?, zoneJson, Payload.member?_ofDocument,
    Table.find?_ofList (by simp [Table.Distinct])]
  simp [Table.lookRows, Json.text?]

theorem shown : Table.Shown fun zones => populate ⟨zones⟩ where
  empty _ := rfl
  keys h := by
    have hvalue := congrArg (·.value .temperatures) h
    simp only [value_populate] at hvalue
    exact Table.keys_eq_of_told zoneOf?_zoneJson Function.injective_id hvalue

end Temperatures

namespace PowerReadings

/-- What a pass finds at the drivers that were there at the beginning. -/
def found (r : PowerReadings) (w : World) : List (String × PowerReading) :=
  r.drivers.flatMap (readDriver w.files w.hostRoot)

def consumption (told : List Json) : Json :=
  .ofDocument (Table.ofList [("power-consumption", .arr told)])

theorem consumption_injective : Function.Injective consumption := by
  have hmember (told : List Json) :
      (consumption told).member? "power-consumption" = some (.arr told) := by
    rw [consumption, Payload.member?_ofDocument, Table.find?_ofList (by simp [Table.Distinct])]
    rfl
  intro told told' h
  have hsame : some (Json.arr told) = some (.arr told') := by rw [← hmember, h, hmember]
  cases hsame
  rfl

theorem value_populate (r : PowerReadings) :
    (r.populate {}).value .resources =
      if r.metrics.isEmpty then none else some (consumption r.toList) :=
  Payload.value_ite_put _ _ _

def metricOf? (j : Json) : Option String := (j.member? "metric-name").bind Json.text?

theorem metricOf?_readingJson (metric : String) (x : PowerReading) :
    metricOf? (readingJson metric x) = some metric := by
  rw [metricOf?, readingJson, Payload.member?_ofDocument,
    Table.find?_ofList (by simp [Table.Distinct])]
  simp [Table.lookRows, Json.text?]

theorem shown (drivers : List PowerDriver) :
    Table.Shown fun metrics => populate { drivers, metrics } where
  empty _ := rfl
  keys h := by
    have hvalue := congrArg (·.value .resources) h
    simp only [value_populate] at hvalue
    exact Table.keys_eq_of_told metricOf?_readingJson consumption_injective hvalue

end PowerReadings

/-! ## After a history of passes -/

namespace Builtin

/-- The monitor after a pass in each of the worlds, that in the first one the last. -/
def after (m : Builtin) : List World → Builtin
  | [] => m
  | w :: ws =>
    match (m.after ws).pass w with
    | .ok (m', _) => m'
    | .error _ => m.after ws

/-- A monitor that reports the latest reading of each name, whatever has become of what it
was read from since. -/
structure Recalls {α : Type} (m : Builtin) (read : World → List (String × α))
    (holding : Table α → Builtin) : Prop where
  holds : ∀ ws, ∃ t, m.after ws = holding t ∧
    ∀ name, t.find? name = ws.findSome? fun w => (Table.ofList (read w)).find? name
  /-- The last pass alone makes the report if it has read all that was ever read. -/
  current_iff : ∀ ws w, (∀ p, (m.after (w :: ws)).populate p = (m.after [w]).populate p) ↔
    ∀ v ∈ ws, ∀ name ∈ (read v).map (·.1), name ∈ (read w).map (·.1)
  /-- There is no report if nothing was ever read. -/
  unset_iff : ∀ ws, (∀ p, (m.after ws).populate p = p) ↔ ∀ w ∈ ws, read w = []

theorem recalls_of_shown {α : Type} {m : Builtin} {read : World → List (String × α)}
    {holding : Table α → Builtin} (hholds : ∀ ws, m.after ws = holding (Table.pile (ws.map read)))
    (hshown : Table.Shown fun t => (holding t).populate) : m.Recalls read holding where
  holds ws := by
    refine ⟨Table.pile (ws.map read), hholds ws, fun name => ?_⟩
    rw [Table.find?_pile, List.findSome?_map]
    rfl
  current_iff ws w := by
    simp only [hholds, List.map_cons, List.map_nil]
    rw [hshown.pile_cons_iff, List.forall_mem_map]
  unset_iff ws := by
    simp only [hholds]
    rw [hshown.pile_eq_self_iff, List.forall_mem_map]

theorem after_temperature (ws : List World) :
    (temperature {}).after ws = temperature ⟨Table.pile (ws.map Temperatures.found)⟩ := by
  induction ws with
  | nil => rfl
  | cons w ws ih =>
      rw [after, ih, List.map_cons, Table.pile]
      simp only [pass, Temperatures.update, Temperatures.found]
      cases w.files.exists? (Temperatures.folder w.hostRoot) with
      | false => rfl
      | true =>
          cases Temperatures.readZones w.files w.hostRoot with
          | ok zones => rfl
          | error e => rfl

theorem after_power (built : World) (ws : List World) :
    (power (PowerReadings.new built)).after ws =
      power { PowerReadings.new built with
        metrics := Table.pile (ws.map (PowerReadings.new built).found) } := by
  induction ws with
  | nil => rfl
  | cons w ws ih =>
      rw [after, ih]
      rfl

theorem recalls_temperature :
    (temperature {}).Recalls Temperatures.found fun zones => temperature ⟨zones⟩ :=
  recalls_of_shown after_temperature Temperatures.shown

/-- Neither monitor gives a reading up, so that their reports are current as long as all that
was ever read is still read. -/
theorem sensors_recall (built : World) :
    (temperature {}).Recalls Temperatures.found (fun zones => temperature ⟨zones⟩) ∧
      (power (PowerReadings.new built)).Recalls (PowerReadings.new built).found fun metrics =>
        power { PowerReadings.new built with metrics } :=
  ⟨recalls_temperature, recalls_of_shown (after_power built) (PowerReadings.shown _)⟩

/-! ### A zone that is not there any more -/

def zoneFolder : Path := ["rootfs", "sys", "devices", "virtual", "thermal", "thermal_zone0"]

def untold : List (Path × Node) :=
  (List.range 6).map (fun n => (zoneFolder.take (n + 1), .directory)) ++
    [(zoneFolder ++ ["type"], .file (some "acpitz\n"))]

def toldWorld : World :=
  { files := ⟨untold ++ [(zoneFolder ++ ["temp"], .file (some "45500\n"))]⟩ }

def untoldWorld : World := { files := ⟨untold⟩ }

theorem found_toldWorld : (Temperatures.found toldWorld).map (·.1) = ["acpitz"] := by
  decide +kernel

theorem found_untoldWorld : (Temperatures.found untoldWorld).map (·.1) = [] := by
  decide +kernel

/-- The temperature of a zone is still reported when its file is gone. -/
theorem not_current_untold :
    ¬∀ (ws : List World) (w : World),
      (∀ v ∈ w :: ws, v.files.exists? (Temperatures.folder v.hostRoot) = true) →
      ¬Fails (((temperature {}).after ws).pass w) →
      ∀ p, ((temperature {}).after (w :: ws)).populate p =
        ((temperature {}).after [w]).populate p := by
  intro hcurrent
  have hfolders : ∀ v ∈ [untoldWorld, toldWorld],
      v.files.exists? (Temperatures.folder v.hostRoot) = true := by
    decide
  have hlist : ¬Fails (untoldWorld.files.list (Temperatures.folder untoldWorld.hostRoot)) := by
    have hok : (untoldWorld.files.list (Temperatures.folder untoldWorld.hostRoot)).toOption =
        some ["thermal_zone0"] := by
      decide +kernel
    rintro ⟨e, herror⟩
    rw [herror] at hok
    cases hok
  have hsucceeds : ¬Fails (((temperature {}).after [toldWorld]).pass untoldWorld) := by
    rw [fails_pass_iff, after_temperature]
    exact fun h => hlist h.2
  have hread := (recalls_temperature.current_iff [toldWorld] untoldWorld).mp
    (hcurrent [toldWorld] untoldWorld hfolders hsucceeds)
  have hzone := hread toldWorld List.mem_cons_self "acpitz"
  rw [found_toldWorld, found_untoldWorld] at hzone
  cases hzone List.mem_cons_self

end Builtin
end EdgeAgent
