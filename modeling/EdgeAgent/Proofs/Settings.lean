import EdgeAgent.Agent.Basic
import EdgeAgent.Proofs.Number.Decimal

/-! # Which settings are accepted

Three variables are periods in whole seconds, and someone has to be named by the others.
The first period that is none is reported, a missing identity only if there is no such
period. With the settings that are accepted an agent can always be set up.
-/

namespace EdgeAgent.Settings

/-! ## Statement -/

def telemetryName : String := "NUVLAEDGE_TELEMETRY_PERIOD"
def heartbeatName : String := "NUVLAEDGE_HEARTBEAT_PERIOD"
def stopName : String := "NUVLAEDGE_WORKER_STOP_TIMEOUT"

/-- Seconds as they may be written, blanks around them not counting. -/
def WritesSeconds (raw : String) (n : Nat) : Prop :=
  Decimal.Writes (Text.trim raw).toList n ∧ 1 ≤ n ∧ n ≤ 2 ^ 64 - 1

/-- The variable is unset or blank, or it is a period. -/
def IsGood (v : Option String) : Prop :=
  ∀ raw, v = some raw → Text.isBlankText raw = true ∨ ∃ n, WritesSeconds raw n

/-- The variable is set, and not blank. -/
def IsGiven (v : Option String) : Prop := ∃ raw, v = some raw ∧ Text.isBlankText raw = false

variable (lookup : String → Option String)

structure GoodPeriods : Prop where
  telemetry : IsGood (lookup telemetryName)
  heartbeat : IsGood (lookup heartbeatName)
  stop : IsGood (lookup stopName)

/-- Under the new name or the old one, or by both credentials. -/
def Identified : Prop :=
  IsGiven (lookup "NUVLAEDGE_UUID") ∨ IsGiven (lookup "NUVLABOX_UUID") ∨
    IsGiven (lookup "NUVLAEDGE_API_KEY") ∧ IsGiven (lookup "NUVLAEDGE_API_SECRET")

/-- The first of the periods that is none. -/
inductive FirstBad : String → Prop
  | telemetry : ¬ IsGood (lookup telemetryName) → FirstBad telemetryName
  | heartbeat : IsGood (lookup telemetryName) → ¬ IsGood (lookup heartbeatName) →
      FirstBad heartbeatName
  | stop : IsGood (lookup telemetryName) → IsGood (lookup heartbeatName) →
      ¬ IsGood (lookup stopName) → FirstBad stopName

def SetsUp (s : Settings) : Prop :=
  ∀ now w, ∃ a, (Agent.new s now w).1 = .ok a ∧
    a.agenda.actions.map (fun x => (x.name, x.period)) =
      [("heartbeat", s.heartbeatPeriod), ("telemetry", s.telemetryPeriod),
        ("watch_workers", Duration.ofSeconds 45)] ∧
    ∀ x ∈ a.agenda.actions, 0 < x.period

/-- The outcome of reading the settings is the one that the variables call for. -/
structure Fits (outcome : Except SettingsError Settings) : Prop where
  accepted : (∃ s, outcome = .ok s) ↔ GoodPeriods lookup ∧ Identified lookup
  invalid : ∀ key, (∃ message, outcome = .error (.invalid key message)) ↔ FirstBad lookup key
  missing : (∃ key hint, outcome = .error (.missing key hint)) ↔
    GoodPeriods lookup ∧ ¬ Identified lookup
  usable : ∀ s, outcome = .ok s → SetsUp s

/-! ## One variable -/

variable {lookup : String → Option String}

theorem present_eq_some_iff {key raw : String} :
    present lookup key = some raw ↔ lookup key = some raw ∧ Text.isBlankText raw = false := by
  rw [present, Option.filter_eq_some_iff, Bool.not_eq_true']

theorem isSome_present_iff {key : String} :
    (present lookup key).isSome = true ↔ IsGiven (lookup key) := by
  simp only [Option.isSome_iff_exists, present_eq_some_iff, IsGiven]

theorem writesSeconds_iff {raw : String} {n : Nat} :
    WritesSeconds raw n ↔ Decimal.natural Decimal.maxWord (Text.trim raw) = .ok n ∧ n ≠ 0 := by
  have hlimit : Decimal.maxWord = 2 ^ 64 - 1 := by decide
  rw [Decimal.natural_eq_ok_iff, WritesSeconds, hlimit]
  constructor
  · rintro ⟨hwrites, hpos, hle⟩
    exact ⟨⟨hwrites, hle⟩, by omega⟩
  · rintro ⟨⟨hwrites, hle⟩, hpos⟩
    exact ⟨hwrites, by omega, hle⟩

theorem period_some_eq_ok_iff {key t : String} {usual d : Nat} :
    period key (some t) usual = .ok d ↔ ∃ n, WritesSeconds t n ∧ d = Duration.ofSeconds n := by
  simp only [writesSeconds_iff]
  unfold period
  dsimp only
  split
  · rename_i h
    simp [h]
  · rename_i h
    refine iff_of_false nofun ?_
    rintro ⟨n, ⟨hn, hpos⟩, -⟩
    exact hpos (Except.ok.inj (hn.symm.trans h))
  · rename_i n hpos h
    rw [Except.ok.injEq, h]
    constructor
    · intro hd
      exact ⟨n, ⟨rfl, hpos⟩, hd.symm⟩
    · rintro ⟨m, ⟨hm, -⟩, rfl⟩
      rw [Except.ok.inj hm]

theorem period_cases (key : String) (raw : Option String) (usual : Nat) :
    (∃ d, period key raw usual = .ok d) ∨
      ∃ message, period key raw usual = .error (.invalid key message) := by
  unfold period
  split
  · exact .inl ⟨usual, rfl⟩
  · split
    · exact .inr ⟨_, rfl⟩
    · exact .inr ⟨_, rfl⟩
    · exact .inl ⟨_, rfl⟩

theorem isGood_iff (key : String) (usual : Nat) :
    IsGood (lookup key) ↔ ∃ d, period key (present lookup key) usual = .ok d := by
  cases hpresent : present lookup key with
  | none =>
      refine iff_of_true (fun raw hraw => .inl ?_) ⟨usual, rfl⟩
      by_contra hblank
      have hsome := present_eq_some_iff.mpr ⟨hraw, eq_false_of_ne_true hblank⟩
      cases hpresent.symm.trans hsome
  | some t =>
      obtain ⟨hraw, hblank⟩ := present_eq_some_iff.mp hpresent
      constructor
      · intro hgood
        obtain ⟨n, hn⟩ := (hgood t hraw).resolve_left (ne_true_of_eq_false hblank)
        exact ⟨_, period_some_eq_ok_iff.mpr ⟨n, hn, rfl⟩⟩
      · rintro ⟨d, hd⟩ raw hread
        obtain ⟨n, hn, -⟩ := period_some_eq_ok_iff.mp hd
        obtain rfl := Option.some.inj (hraw.symm.trans hread)
        exact .inr ⟨n, hn⟩

variable (lookup) in
theorem period_cases_of_lookup (key : String) (usual : Nat) :
    IsGood (lookup key) ∧ (∃ d, period key (present lookup key) usual = .ok d) ∨
      ¬ IsGood (lookup key) ∧
        ∃ message, period key (present lookup key) usual = .error (.invalid key message) := by
  rcases period_cases key (present lookup key) usual with hok | ⟨message, hbad⟩
  · exact .inl ⟨(isGood_iff key usual).mpr hok, hok⟩
  · refine .inr ⟨fun hgood => ?_, message, hbad⟩
    obtain ⟨d, hd⟩ := (isGood_iff key usual).mp hgood
    cases hd.symm.trans hbad

theorem second_le_period {key : String} {raw : Option String} {usual d : Nat}
    (husual : Duration.ofSeconds 1 ≤ usual) (h : period key raw usual = .ok d) :
    Duration.ofSeconds 1 ≤ d := by
  cases raw with
  | none => exact Except.ok.inj h ▸ husual
  | some t =>
      obtain ⟨n, ⟨-, hpos, -⟩, rfl⟩ := period_some_eq_ok_iff.mp h
      unfold Duration.ofSeconds
      omega

/-! ## All variables -/

theorem hasIdentity_iff {s : Settings}
    (huuid : s.uuid = (present lookup "NUVLAEDGE_UUID").or (present lookup "NUVLABOX_UUID"))
    (hkey : s.apiKey = present lookup "NUVLAEDGE_API_KEY")
    (hsecret : s.apiSecret = present lookup "NUVLAEDGE_API_SECRET") :
    s.hasIdentity = true ↔ Identified lookup := by
  rw [hasIdentity, hasCredentials, huuid, hkey, hsecret, Bool.or_eq_true, Bool.and_eq_true,
    Option.isSome_or, Bool.or_eq_true, or_assoc, isSome_present_iff, isSome_present_iff,
    isSome_present_iff, isSome_present_iff, Identified]

variable (lookup) in
/-- One period is read after the other, and with all of them only the identity can be missing. -/
theorem exists_made : ∃ made : Nat → Nat → Nat → Settings,
    (∀ t h o, (made t h o).telemetryPeriod = t ∧ (made t h o).heartbeatPeriod = h ∧
      ((made t h o).hasIdentity = true ↔ Identified lookup)) ∧
    ofVariables lookup = (do
      let t ← period telemetryName (present lookup telemetryName) (Duration.ofSeconds 60)
      let h ← period heartbeatName (present lookup heartbeatName) (Duration.ofSeconds 20)
      let o ← period stopName (present lookup stopName) (Duration.ofSeconds 10)
      if (made t h o).hasIdentity then return made t h o
      else .error (.missing "NUVLAEDGE_UUID" identityHint)) := by
  refine ⟨_, ?_, rfl⟩
  intro t h o
  exact ⟨rfl, rfl, hasIdentity_iff rfl rfl rfl⟩

/-- What the variables come to. -/
inductive Outcome (lookup : String → Option String) : Except SettingsError Settings → Prop
  | invalid {key message : String} : FirstBad lookup key →
      Outcome lookup (.error (.invalid key message))
  | missing {key hint : String} : GoodPeriods lookup → ¬ Identified lookup →
      Outcome lookup (.error (.missing key hint))
  | accepted {s : Settings} : GoodPeriods lookup → Identified lookup →
      Duration.ofSeconds 1 ≤ s.telemetryPeriod → Duration.ofSeconds 1 ≤ s.heartbeatPeriod →
      Outcome lookup (.ok s)

theorem outcome (lookup : String → Option String) : Outcome lookup (ofVariables lookup) := by
  obtain ⟨made, hmade, hread⟩ := exists_made lookup
  rw [hread]
  rcases period_cases_of_lookup lookup telemetryName (Duration.ofSeconds 60) with
    ⟨htelemetry, t, ht⟩ | ⟨htelemetry, message, ht⟩
  case inr =>
    rw [ht]
    exact .invalid (.telemetry htelemetry)
  rcases period_cases_of_lookup lookup heartbeatName (Duration.ofSeconds 20) with
    ⟨hheartbeat, h, hh⟩ | ⟨hheartbeat, message, hh⟩
  case inr =>
    rw [ht, hh]
    exact .invalid (.heartbeat htelemetry hheartbeat)
  rcases period_cases_of_lookup lookup stopName (Duration.ofSeconds 10) with
    ⟨hstop, o, ho⟩ | ⟨hstop, message, ho⟩
  case inr =>
    rw [ht, hh, ho]
    exact .invalid (.stop htelemetry hheartbeat hstop)
  have hgood : GoodPeriods lookup := ⟨htelemetry, hheartbeat, hstop⟩
  obtain ⟨hfirst, hsecond, hidentity⟩ := hmade t h o
  simp only [ht, hh, ho, bind, Except.bind]
  split
  · rename_i hid
    refine .accepted hgood (hidentity.mp hid) ?_ ?_
    · rw [hfirst]
      exact second_le_period (by decide) ht
    · rw [hsecond]
      exact second_le_period (by decide) hh
  · rename_i hid
    exact .missing hgood fun h => hid (hidentity.mpr h)

theorem FirstBad.not_good {key : String} (h : FirstBad lookup key) : ¬ GoodPeriods lookup := by
  intro hgood
  cases h with
  | telemetry hbad => exact hbad hgood.telemetry
  | heartbeat _ hbad => exact hbad hgood.heartbeat
  | stop _ _ hbad => exact hbad hgood.stop

theorem FirstBad.unique {key other : String} (h : FirstBad lookup key)
    (h' : FirstBad lookup other) : key = other := by
  cases h <;> cases h' <;> first | rfl | contradiction

/-! ## The agent -/

theorem exists_add {c : Crew Duty Duty.Param Duty.Act} {period : Nat}
    (h : Duration.ofSeconds 1 ≤ period) (name : String) (param : Duty.Param)
    (actions : List Duty.Act) (delay : Worker.Delay) (now : Nat) (w : World) :
    ∃ b c' w', c.add name param actions period delay now w = (.ok b, c', w') := by
  have hmillis : Duration.millis period ≠ 0 := by
    have hmax : 0 < Duration.maxMillis := by decide
    unfold Duration.ofSeconds at h
    unfold Duration.millis
    omega
  unfold Crew.add
  split
  · exact ⟨_, _, _, rfl⟩
  · simp only [Worker.new, if_neg hmillis, Craft.build]
    exact ⟨_, _, _, rfl⟩

theorem setsUp {s : Settings} (ht : Duration.ofSeconds 1 ≤ s.telemetryPeriod)
    (hh : Duration.ofSeconds 1 ≤ s.heartbeatPeriod) : SetsUp s := by
  intro now w
  have hminute : Duration.ofSeconds 1 ≤ Agent.commissionerPeriod := by decide
  unfold Agent.new
  extract_lets w crew
  obtain ⟨_, crew, w₁, htelemetry⟩ := exists_add (c := crew) ht Agent.telemetryWorker
    (.telemetry s.excluded s.telemetryPeriod) [.run] (.given Agent.telemetryDelay) now w
  obtain ⟨_, crew', w₂, hcommissioner⟩ := exists_add (c := crew) hminute Agent.commissionerWorker
    (.commissioner s.uuid (Path.ofText s.commissioningFile)) [.run]
    (.given Agent.commissionerDelay) now w₁
  simp only [htelemetry, hcommissioner]
  refine ⟨_, rfl, rfl, fun x hx => ?_⟩
  have hsecond : 0 < Duration.ofSeconds 1 := by decide
  rcases List.mem_cons.mp hx with rfl | hx
  · exact Nat.lt_of_lt_of_le hsecond hh
  rcases List.mem_cons.mp hx with rfl | hx
  · exact Nat.lt_of_lt_of_le hsecond ht
  obtain rfl := List.mem_singleton.mp hx
  decide

/-- Which settings are accepted, and why others are not. -/
theorem ofVariables_fits (lookup : String → Option String) :
    Fits lookup (ofVariables lookup) := by
  have hcomes := outcome lookup
  generalize ofVariables lookup = r at hcomes ⊢
  cases hcomes with
  | invalid hbad =>
      refine ⟨iff_of_false nofun fun h => hbad.not_good h.1, fun key => ⟨?_, fun h => ?_⟩,
        iff_of_false nofun fun h => hbad.not_good h.1, nofun⟩
      · rintro ⟨_, ⟨⟩⟩
        exact hbad
      · exact h.unique hbad ▸ ⟨_, rfl⟩
  | missing hgood hnone =>
      exact ⟨iff_of_false nofun fun h => hnone h.2, fun key => iff_of_false nofun
        fun h => h.not_good hgood, iff_of_true ⟨_, _, rfl⟩ ⟨hgood, hnone⟩, nofun⟩
  | accepted hgood hid ht hh =>
      refine ⟨iff_of_true ⟨_, rfl⟩ ⟨hgood, hid⟩, fun key => iff_of_false nofun
        fun h => h.not_good hgood, iff_of_false nofun fun h => h.2 hid, ?_⟩
      rintro _ ⟨⟩
      exact setsUp ht hh

end EdgeAgent.Settings
