import EdgeAgent.Proofs.Agenda.Usage

/-! # Who is due gets its turn

A run sets the countdown of an action above that of every action which is due, and
time takes the same from all. So an action that is due waits for one run of each
other action at most, whatever else is done with the agenda.
-/

namespace EdgeAgent.Agenda

variable {α : Type}

theorem mem_editPeriod_of_mem {a : Agenda α} {x : Action α} (h : x ∈ a.actions) (key : String)
    (period : Nat) : ∃ y ∈ (a.editPeriod key period).2.actions,
      y.id = x.id ∧ y.remaining = x.remaining := by
  refine ⟨_, List.mem_map_of_mem h, ?_, ?_⟩ <;> split <;> rfl

theorem ranIds_append (ms ns : List (Mark α)) : ranIds (ms ++ ns) = ranIds ms ++ ranIds ns := by
  simp [ranIds]

namespace Usage

/-- The action of an id is due, and stands in front of another one that has run. -/
structure Awaits (t : Usage α) (id other : String) (ran : List String) : Prop where
  once : ran.count other ≤ 1
  known : other ∈ ran → other ∈ t.agenda.actions.map (·.id)
  inFront : ∃ x ∈ t.agenda.actions, x.id = id ∧
    x.remaining ≤ Action.countdown (t.now - t.agenda.counted) ∧
    ∀ y ∈ t.agenda.actions, y.id = other → other ∈ ran → x.remaining < y.remaining

theorem Awaits.aged {t : Usage α} {id other : String} {ran : List String}
    (h : t.Awaits id other ran) :
    ∃ x ∈ t.agenda.aged t.now, x.id = id ∧ x.remaining ≤ 0 ∧
      ∀ y ∈ t.agenda.aged t.now, y.id = other → other ∈ ran → x.remaining < y.remaining := by
  obtain ⟨x, hx, hid, hdue, hfront⟩ := h.inFront
  refine ⟨_, List.mem_map_of_mem hx, hid, ?_, ?_⟩
  · simp only [Action.lessen]
    omega
  · intro y hy hyid hran
    obtain ⟨z, hz, rfl⟩ := List.mem_map.mp hy
    have hlt := hfront z hz hyid hran
    simp only [Action.lessen]
    omega

theorem Awaits.of_run {t : Usage α} {id other : String} {ran : List String}
    (h : t.Awaits id other ran) (hinUse : InUse t) {z : Action α} {rest : List (Action α)}
    (hahead : t.agenda.ahead t.now = z :: rest) (hne : id ≠ z.id)
    (hperiod : z.id = other → 0 < z.period) :
    (t.after ⟨z.fire :: rest, t.now⟩ [t.mark z.fire true]).Awaits id other (z.id :: ran) := by
  obtain ⟨x, hx, hid, hdue, hfront⟩ := h.aged
  have hdistinct := hinUse.ahead_distinct
  rw [hahead, List.map_cons, List.nodup_cons] at hdistinct
  have hmem : ∀ y ∈ z :: rest, y ∈ t.agenda.aged t.now := fun y hy =>
    (ahead_perm _ _).subset (hahead ▸ hy)
  have hxrest : x ∈ rest := by
    have hxahead := (ahead_perm t.agenda t.now).symm.subset hx
    rw [hahead] at hxahead
    rcases List.mem_cons.mp hxahead with rfl | hxrest
    · exact absurd hid.symm hne
    · exact hxrest
  have hzero : x.remaining ≤ Action.countdown (t.now - t.now) :=
    Int.le_trans hdue (Action.countdown_nonneg _)
  refine ⟨?_, ?_, x, List.mem_cons_of_mem _ hxrest, hid, hzero, ?_⟩
  · by_cases hother : z.id = other
    · -- Who stands in front of one that is waited for has not run before.
      have hfirst : other ∉ ran := by
        intro hran
        have hbehind := hfront z (hmem z List.mem_cons_self) hother hran
        have hbefore := le_of_ahead_eq hahead x hxrest
        omega
      have hnone : ran.count other = 0 := List.count_eq_zero_of_not_mem hfirst
      have hone : (other :: ran).count other = ran.count other + 1 := List.count_cons_self
      rw [hother]
      omega
    · rw [List.count_cons_of_ne hother]
      exact h.once
  · intro hran
    rcases List.mem_cons.mp hran with rfl | hran
    · exact List.mem_cons_self
    · have hknown := (mem_ahead_ids t.agenda t.now).mpr (h.known hran)
      rw [hahead] at hknown
      exact hknown
  · intro y hy hyid hran
    rcases List.mem_cons.mp hy with rfl | hy
    · exact Int.lt_of_le_of_lt hdue (Action.countdown_pos (hperiod hyid))
    · rcases List.mem_cons.mp hran with hyz | hran
      · exact absurd ((hyid.trans hyz) ▸ List.mem_map_of_mem hy) hdistinct.1
      · exact hfront y (hmem y (List.mem_cons_of_mem z hy)) hyid hran

theorem Awaits.of_turn {t u : Usage α} {d : Deed α} {new : List (Mark α)} {id other : String}
    {ran : List String} (h : t.Awaits id other ran) (hinUse : InUse t) (hadmits : t.Admits d)
    (hturn : Turn t d new u) (hwaits : id ∉ ranIds new)
    (hperiod : ∀ m ∈ new, m.hasRun → m.action.id = other → 0 < m.action.period) :
    u.Awaits id other (ranIds new ++ ran) := by
  cases hturn with
  | pass span =>
      obtain ⟨x, hx, hid, hdue, hfront⟩ := h.inFront
      have hmono : Action.countdown (t.now - t.agenda.counted) ≤
          Action.countdown (t.now + span - t.agenda.counted) :=
        Action.countdown_mono (by omega)
      exact ⟨h.once, h.known, x, hx, hid, Int.le_trans hdue hmono, hfront⟩
  | edit key period =>
      obtain ⟨x, hx, hid, hdue, hfront⟩ := h.inFront
      obtain ⟨y, hy, hyid, hyremaining⟩ := mem_editPeriod_of_mem hx key period
      refine ⟨h.once, ?_, y, hy, hyid.trans hid, hyremaining ▸ hdue, ?_⟩
      · rw [editPeriod_ids]
        exact h.known
      · intro z hz hzother hran
        obtain ⟨z', hz', hzid, hzremaining⟩ := mem_editPeriod hz
        rw [hyremaining, hzremaining]
        exact hfront z' hz' (hzid ▸ hzother) hran
  | look d hcount =>
      obtain ⟨x, hx, hid, hdue, hfront⟩ := h.aged
      refine ⟨h.once, ?_, x, (ahead_perm _ _).symm.subset hx, hid, ?_, ?_⟩
      · exact fun hran => (mem_ahead_ids t.agenda t.now).mpr (h.known hran)
      · exact Int.le_trans hdue (Action.countdown_nonneg _)
      · exact fun y hy => hfront y ((ahead_perm _ _).subset hy)
  | run hcount hahead hrunDue =>
      rename_i z rest
      have hne : id ≠ z.id := by simpa [ranIds, mark, Action.fire] using hwaits
      exact h.of_run hinUse hahead hne (hperiod _ (List.mem_singleton_self _) rfl)
  | add y hcount =>
      obtain ⟨x, hx, hid, hdue, hfront⟩ := h.aged
      refine ⟨h.once, ?_, x, List.mem_append_left _ hx, hid, ?_, ?_⟩
      · intro hran
        simp only [after, List.map_append, aged_ids]
        exact List.mem_append_left _ (h.known hran)
      · exact Int.le_trans hdue (Action.countdown_nonneg _)
      · intro w hw hwother hran
        rcases List.mem_append.mp hw with hw | hw
        · exact hfront w hw hwother hran
        · -- An action that has just come has not run.
          rw [List.mem_singleton.mp hw] at hwother
          exact absurd (hwother ▸ h.known hran) hadmits.1

theorem awaits_of_leads {s t : Usage α} (h : s.Reachable) {id : String}
    (hawaits : ∀ other, s.Awaits id other []) (hleads : s.Leads t) :
    t.Reachable ∧ ∃ recent, t.marks = recent ++ s.marks ∧
      (id ∉ ranIds recent → ∀ other,
        (∀ m ∈ recent, m.hasRun → m.action.id = other → 0 < m.action.period) →
          t.Awaits id other (ranIds recent)) := by
  induction hleads with
  | refl => exact ⟨h, [], rfl, fun _ other _ => hawaits other⟩
  | tail _ hstep ih =>
      obtain ⟨d, hadmits, hstep⟩ := hstep
      obtain ⟨hreachable, recent, hrecent, hso⟩ := ih
      obtain ⟨new, hturn⟩ := turn_of_step hstep
      -- Marks are only ever added in front, so those since the beginning are a part of them.
      refine ⟨hreachable.step d hadmits hstep, new ++ recent, ?_, ?_⟩
      · rw [hturn.marks_eq, hrecent, List.append_assoc]
      · intro hwaits other hperiod
        rw [ranIds_append, List.mem_append, not_or] at hwaits
        rw [ranIds_append]
        have hbefore := hso hwaits.2 other fun m hm => hperiod m (List.mem_append_right _ hm)
        exact hbefore.of_turn hreachable.inUse hadmits hturn hwaits.1 fun m hm =>
          hperiod m (List.mem_append_left _ hm)

/-- From when an action is due until it runs, every other action runs once at most,
unless it runs with a period of zero. -/
theorem ran_once_while_due {s t : Usage α} (h : s.Reachable) {x : Action α}
    (hx : x ∈ s.agenda.actions) (hdue : x.remaining ≤ ((s.now - s.agenda.counted : Nat) : Int))
    (hleads : s.Leads t) : ∃ recent, t.marks = recent ++ s.marks ∧
      (x.id ∉ ranIds recent → ∀ other,
        (∀ m ∈ recent, m.hasRun → m.action.id = other → 0 < m.action.period) →
          (ranIds recent).count other ≤ 1) := by
  have hrange := (h.inUse.inRange x hx).2
  have hcountdown : x.remaining ≤ Action.countdown (s.now - s.agenda.counted) := by
    unfold Action.countdown
    omega
  have hawaits : ∀ other, s.Awaits x.id other [] := fun other =>
    ⟨by simp, by simp, x, hx, rfl, hcountdown, by simp⟩
  obtain ⟨_, recent, hrecent, hso⟩ := awaits_of_leads h hawaits hleads
  exact ⟨recent, hrecent, fun hwaits other hperiod => (hso hwaits other hperiod).once⟩

/-! ## Two actions that are due -/

def telemetry : Action Unit := Action.new "telemetry" "1" () (Duration.ofSeconds 1)

def slowBeat : Action Unit :=
  (Action.new "heartbeat" "2" () (Duration.ofSeconds 60)).after (Duration.ofSeconds 1)

/-- The one is a second late when the other becomes due. -/
def crowded : Usage Unit := (fresh [telemetry, slowBeat] 0).later (Duration.ofSeconds 1)

def served : Usage Unit :=
  let ran := (telemetry.lessen (Duration.ofSeconds 1)).fire
  crowded.after ⟨[ran, slowBeat.lessen (Duration.ofSeconds 1)], crowded.now⟩
    [crowded.mark ran true]

theorem reachable_crowded : Reachable crowded := by
  have hfresh : Reachable (fresh [telemetry, slowBeat] 0) := by
    refine .fresh _ 0 (by decide) ?_
    simp only [List.forall_mem_cons, Action.InRange]
    decide
  exact hfresh.step (.pass _) trivial rfl

theorem crowded_leads : crowded.Leads served := by
  have haged : crowded.agenda.aged crowded.now =
      [telemetry.lessen (Duration.ofSeconds 1), slowBeat.lessen (Duration.ofSeconds 1)] := rfl
  have hcount : crowded.agenda.Countable crowded.now := by
    rw [Countable, haged]
    simp only [List.forall_mem_cons, Action.InRange]
    decide
  have hordered := ahead_of_ordered crowded.agenda crowded.now (by decide)
  rw [haged] at hordered
  exact .single ⟨.call, trivial, step_call_of_due hcount hordered (by decide)⟩

theorem ran_once_while_due_crowded :
    crowded.Reachable ∧ slowBeat ∈ crowded.agenda.actions ∧
      slowBeat.remaining ≤ ((crowded.now - crowded.agenda.counted : Nat) : Int) ∧
      crowded.Leads served ∧ ∃ recent, served.marks = recent ++ crowded.marks ∧
        (slowBeat.id ∉ ranIds recent → ∀ other,
          (∀ m ∈ recent, m.hasRun → m.action.id = other → 0 < m.action.period) →
            (ranIds recent).count other ≤ 1) := by
  have hmem : slowBeat ∈ crowded.agenda.actions := by simp [crowded, later, fresh, Agenda.new]
  have hdue : slowBeat.remaining ≤ ((crowded.now - crowded.agenda.counted : Nat) : Int) := by
    decide
  exact ⟨reachable_crowded, hmem, hdue, crowded_leads,
    ran_once_while_due reachable_crowded hmem hdue crowded_leads⟩

end Usage
end EdgeAgent.Agenda
