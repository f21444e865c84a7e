import EdgeAgent.Proofs.Agenda.Selection

/-! # Running what is due

Whoever comes next is run, again and again, until he is not due. A run puts the action
behind everyone who is still due, so each of them gets one turn, in the order in which a
look shows them, and then nobody is due. Only an action whose period is zero would be due
again.
-/

namespace EdgeAgent

namespace Action

variable {α : Type}

theorem Sorts.filter {xs ys : List (Action α)} (h : Sorts xs ys) (p : Action α → Bool) :
    Sorts (xs.filter p) (ys.filter p) := by
  refine ⟨h.perm.filter p, h.ascending.filter p, ?_⟩
  intro r
  have hswap : ∀ zs : List (Action α),
      (zs.filter p).filter (·.remaining = r) = (zs.filter (·.remaining = r)).filter p := by
    intro zs
    simp only [List.filter_filter, Bool.and_comm]
  rw [hswap, h.ties r, hswap]

theorem due_append_waiting {xs : List (Action α)}
    (h : xs.Pairwise fun x y => x.remaining ≤ y.remaining) :
    xs.filter (·.isDue) ++ xs.filter (!·.isDue) = xs := by
  induction xs with
  | nil => rfl
  | cons x xs ih =>
      obtain ⟨hx, hxs⟩ := List.pairwise_cons.mp h
      by_cases hdue : x.isDue = true
      · simp [hdue, ih hxs]
      · have hwaiting : ∀ y ∈ xs, y.isDue = false := by
          intro y hy
          have hle := hx y hy
          simp only [isDue, decide_eq_true_eq, decide_eq_false_iff_not] at hdue ⊢
          omega
        have hnone : xs.filter (·.isDue) = [] := by simpa using hwaiting
        have hall : xs.filter (!·.isDue) = xs := by simpa using hwaiting
        simp [hdue, hnone, hall]

theorem putInOrder_append {x : Action α} {ys : List (Action α)} (zs : List (Action α))
    (h : ∀ y ∈ ys, y.remaining < x.remaining) :
    x.putInOrder (ys ++ zs) = ys ++ x.putInOrder zs := by
  induction ys with
  | nil => rfl
  | cons y ys ih =>
      obtain ⟨hy, hys⟩ := List.forall_mem_cons.mp h
      have hlater : ¬x.sooner y = true := by
        simp only [sooner, decide_eq_true_eq]
        omega
      rw [List.cons_append, putInOrder, if_neg hlater, ih hys, List.cons_append]

theorem isDue_fire {x : Action α} (h : 0 < x.period) : x.fire.isDue = false := by
  have hpos := countdown_pos h
  have hlater : ¬x.fire.remaining ≤ 0 := by
    show ¬countdown x.period ≤ 0
    omega
  exact decide_eq_false hlater

end Action

namespace Agenda

variable {α : Type} {now : Nat}

/-- Whoever comes next is run while he is due. Beside the agendas stand the actions as
their runs left them. -/
inductive Drains (now : Nat) : Agenda α → List (Action α) → Agenda α → Prop
  | empty {a b : Agenda α} : a.observe now = .ok b → b.actions = [] → Drains now a [] b
  | rest {a b : Agenda α} : a.callNext now = .ok (none, b) → Drains now a [] b
  | run {a b c : Agenda α} {x : Action α} {ran : List (Action α)} :
      a.callNext now = .ok (some x, b) → Drains now b ran c → Drains now a (x :: ran) c

/-- The actions that were due have run once each, in their order, and nobody else. -/
structure Drained (a : Agenda α) (now : Nat) (due : List (Action α)) (b : Agenda α) : Prop where
  order : Action.Sorts ((a.aged now).filter (·.isDue)) due
  drains : ∀ ran c, Drains now a ran c ↔ ran = due.map (·.fire) ∧ c = b
  drain : ∀ limit, due.length < limit → a.drain now limit = .ok (due.map (·.fire), b)
  remaining : ∀ x ∈ due, x.fire.remaining = min (x.period : Int) Action.maxCountdown
  kept : b.actions.Perm (due.map (·.fire) ++ (a.aged now).filter (!·.isDue))
  waiting : ∀ x ∈ b.actions, x.isDue = false

/-! ## One turn -/

theorem countable_of_observe {a b : Agenda α} (h : a.observe now = .ok b) : a.Countable now := by
  by_cases hcount : a.Countable now
  · exact hcount
  · rw [(fails_of_not_countable hcount).observe] at h
    cases h

theorem callNext_of_not_countable {a : Agenda α} (h : ¬a.Countable now) :
    a.callNext now = .error .outOfRange := by
  rw [callNext, (fails_of_not_countable h).next]
  rfl

theorem drain_of_not_countable {a : Agenda α} (h : ¬a.Countable now) (limit : Nat) :
    a.drain now (limit + 1) = .error .outOfRange := by
  rw [drain, (fails_of_not_countable h).observe]
  rfl

theorem drain_of_countable {a : Agenda α} (h : a.Countable now) (limit : Nat) :
    a.drain now (limit + 1) = match a.ahead now with
      | [] => .ok ([], ⟨[], now⟩)
      | x :: rest =>
        if x.isDue then do
          let (ran, b) ← drain ⟨x.fire :: rest, now⟩ now limit
          return (x.fire :: ran, b)
        else .ok ([], ⟨x :: rest, now⟩) := by
  rw [drain, observe_of_countable h]
  cases hahead : a.ahead now with
  | nil => rfl
  | cons x rest =>
      by_cases hdue : x.isDue <;> simp [bind, Except.bind, pure, Except.pure, hdue]

section

variable {a b : Agenda α} {x : Action α} {rest : List (Action α)}

theorem callNext_of_due (hcount : a.Countable now) (hahead : a.ahead now = x :: rest)
    (hdue : x.isDue = true) : a.callNext now = .ok (some x.fire, ⟨x.fire :: rest, now⟩) := by
  simp [callNext_of_countable hcount, hahead, hdue]

theorem callNext_of_waiting (hcount : a.Countable now) (hahead : a.ahead now = x :: rest)
    (hwaits : x.isDue = false) : a.callNext now = .ok (none, ⟨x :: rest, now⟩) := by
  simp [callNext_of_countable hcount, hahead, hwaits]

/-- Whoever stands in front runs, or is not due. -/
theorem callNext_cases {ran : Option (Action α)} (h : a.callNext now = .ok (ran, b)) :
    a.Countable now ∧ ∃ x rest, a.ahead now = x :: rest ∧
      (x.isDue = true ∧ ran = some x.fire ∧ b = ⟨x.fire :: rest, now⟩ ∨
        x.isDue = false ∧ ran = none ∧ b = ⟨x :: rest, now⟩) := by
  by_cases hcount : a.Countable now
  case neg =>
      rw [callNext_of_not_countable hcount] at h
      cases h
  case pos =>
      cases hahead : a.ahead now with
      | nil => simp [callNext_of_countable hcount, hahead] at h
      | cons x rest =>
          refine ⟨hcount, x, rest, rfl, ?_⟩
          by_cases hdue : x.isDue = true
          · rw [callNext_of_due hcount hahead hdue] at h
            cases h
            exact .inl ⟨hdue, rfl, rfl⟩
          · have hwaits : x.isDue = false := eq_false_of_ne_true hdue
            rw [callNext_of_waiting hcount hahead hwaits] at h
            cases h
            exact .inr ⟨hwaits, rfl, rfl⟩

theorem ahead_of_run {due later : List (Action α)} (hcount : a.Countable now)
    (hahead : a.ahead now = x :: (due ++ later)) (hdue : ∀ y ∈ due, y.isDue = true)
    (hpositive : 0 < x.period) :
    (⟨x.fire :: (due ++ later), now⟩ : Agenda α).Countable now ∧
      (⟨x.fire :: (due ++ later), now⟩ : Agenda α).ahead now = due ++ x.fire.putInOrder later := by
  constructor
  · rw [Countable, aged_self]
    intro y hy
    rcases List.mem_cons.mp hy with rfl | hy
    · exact Action.inRange_fire x
    · have hmem : y ∈ a.ahead now := by
        rw [hahead]
        exact List.mem_cons_of_mem x hy
      exact hcount y ((a.ahead_perm now).subset hmem)
  · have hordered : (x :: (due ++ later)).Pairwise fun x y => x.remaining ≤ y.remaining := by
      rw [← hahead]
      exact Action.inOrder_ordered _
    have hbehind : ∀ y ∈ due, y.remaining < x.fire.remaining := by
      intro y hy
      have hydue := hdue y hy
      have hfire := Action.isDue_fire hpositive
      simp only [Action.isDue, decide_eq_true_eq, decide_eq_false_iff_not] at hydue hfire
      omega
    rw [ahead, aged_self]
    show x.fire.putInOrder (Action.inOrder (due ++ later)) = _
    rw [Action.inOrder_of_ordered (List.pairwise_cons.mp hordered).2,
      Action.putInOrder_append later hbehind]

end

/-! ## The loop -/

/-- The relation says what the loop does, if the loop may turn often enough. -/
theorem Drains.drain_eq {a b : Agenda α} {ran : List (Action α)} (h : Drains now a ran b) :
    ∀ limit, ran.length < limit → a.drain now limit = .ok (ran, b) := by
  induction h with
  | @empty a b hobserve hnone =>
      intro limit hlimit
      have hcount := countable_of_observe hobserve
      rw [observe_of_countable hcount] at hobserve
      cases hobserve
      have hahead : a.ahead now = [] := hnone
      obtain ⟨limit, rfl⟩ := Nat.exists_eq_add_one_of_ne_zero (Nat.ne_zero_of_lt hlimit)
      rw [drain_of_countable hcount, hahead]
  | rest hcall =>
      intro limit hlimit
      obtain ⟨hcount, x, rest, hahead, hruns | ⟨hwaits, _, rfl⟩⟩ := callNext_cases hcall
      · cases hruns.2.1
      · obtain ⟨limit, rfl⟩ := Nat.exists_eq_add_one_of_ne_zero (Nat.ne_zero_of_lt hlimit)
        simp [drain_of_countable hcount, hahead, hwaits]
  | run hcall _ ih =>
      intro limit hlimit
      obtain ⟨hcount, x, rest, hahead, ⟨hdue, hran, rfl⟩ | hwaits⟩ := callNext_cases hcall
      · obtain ⟨limit, rfl⟩ := Nat.exists_eq_add_one_of_ne_zero (Nat.ne_zero_of_lt hlimit)
        cases hran
        rw [drain_of_countable hcount, hahead]
        simp only [hdue, if_true, ih limit (Nat.lt_of_succ_lt_succ hlimit)]
        rfl
      · cases hwaits.2.1

theorem Drains.unique {a b c : Agenda α} {ran others : List (Action α)}
    (h : Drains now a ran b) (h' : Drains now a others c) : others = ran ∧ c = b := by
  have hlimit : ran.length < ran.length + others.length + 1 := by omega
  have hlimit' : others.length < ran.length + others.length + 1 := by omega
  have hsame := (h'.drain_eq _ hlimit').symm.trans (h.drain_eq _ hlimit)
  cases hsame
  exact ⟨rfl, rfl⟩

/-- By induction on those that are due. A run puts the first one behind the others, and
those who are not due stay so. -/
theorem drains_of_ahead_eq {a : Agenda α} (due later : List (Action α)) (hcount : a.Countable now)
    (hahead : a.ahead now = due ++ later)
    (hdue : ∀ x ∈ due, x.isDue = true ∧ 0 < x.period) (hlater : ∀ x ∈ later, x.isDue = false) :
    ∃ b, Drains now a (due.map (·.fire)) b ∧
      b.actions.Perm (due.map (·.fire) ++ later) ∧ ∀ x ∈ b.actions, x.isDue = false := by
  induction due generalizing a later with
  | nil =>
      cases later with
      | nil =>
          have hobserve := observe_of_countable hcount
          rw [hahead] at hobserve
          exact ⟨_, .empty hobserve rfl, .refl _, hlater⟩
      | cons x rest =>
          have hcall := callNext_of_waiting hcount hahead (hlater x List.mem_cons_self)
          exact ⟨_, .rest hcall, .refl _, hlater⟩
  | cons x due ih =>
      obtain ⟨⟨hxdue, hxpositive⟩, hdue⟩ := List.forall_mem_cons.mp hdue
      have hcall := callNext_of_due hcount hahead hxdue
      obtain ⟨hcounted, hnext⟩ := ahead_of_run hcount hahead (fun y hy => (hdue y hy).1) hxpositive
      have hput := Action.putInOrder_perm x.fire later
      have hstill : ∀ y ∈ x.fire.putInOrder later, y.isDue = false := by
        intro y hy
        rcases List.mem_cons.mp (hput.subset hy) with rfl | hy
        · exact Action.isDue_fire hxpositive
        · exact hlater y hy
      obtain ⟨b, hdrains, hperm, hwaiting⟩ := ih _ hcounted hnext hdue hstill
      refine ⟨b, .run hcall hdrains, ?_, hwaiting⟩
      exact (hperm.trans (hput.append_left _)).trans List.perm_middle

theorem Countable.drained {a : Agenda α} (h : a.Countable now)
    (hpositive : ∀ x ∈ a.aged now, x.isDue = true → 0 < x.period) :
    ∃ due b, a.Drained now due b := by
  have hsorts : Action.Sorts (a.aged now) (a.ahead now) := Action.sorts_inOrder _
  have hsplit := Action.due_append_waiting hsorts.ascending
  have hdue : ∀ x ∈ (a.ahead now).filter (·.isDue), x.isDue = true ∧ 0 < x.period := by
    intro x hx
    obtain ⟨hmem, hxdue⟩ := List.mem_filter.mp hx
    exact ⟨hxdue, hpositive x (hsorts.perm.subset hmem) hxdue⟩
  have hwaiting : ∀ x ∈ (a.ahead now).filter (!·.isDue), x.isDue = false := by
    intro x hx
    simpa using (List.mem_filter.mp hx).2
  obtain ⟨b, hdrains, hperm, hnone⟩ := drains_of_ahead_eq _ _ h hsplit.symm hdue hwaiting
  have hunique : ∀ ran c, Drains now a ran c ↔
      ran = ((a.ahead now).filter (·.isDue)).map (·.fire) ∧ c = b := by
    intro ran c
    constructor
    · exact hdrains.unique
    · rintro ⟨rfl, rfl⟩
      exact hdrains
  exact ⟨(a.ahead now).filter (·.isDue), b, {
    order := hsorts.filter _
    drains := hunique
    drain := fun limit hlimit => hdrains.drain_eq limit (by simpa using hlimit)
    remaining := fun x _ => rfl
    kept := hperm.trans ((hsorts.filter _).perm.append_left _)
    waiting := hnone }⟩

/-- Wherever the time can be counted, the actions that are due run once each, in the order
in which a look shows them, and then nobody is due. Where it cannot, nobody runs. -/
theorem drained_of_positive (a : Agenda α) (now : Nat)
    (hpositive : ∀ x ∈ a.aged now, x.isDue = true → 0 < x.period) :
    (a.Countable now → ∃ due b, a.Drained now due b) ∧
      (¬a.Countable now → a.callNext now = .error .outOfRange ∧
        ∀ limit, a.drain now (limit + 1) = .error .outOfRange) :=
  ⟨fun hcount => hcount.drained hpositive, fun hcount =>
    ⟨callNext_of_not_countable hcount, drain_of_not_countable hcount⟩⟩

/-- Three actions are due when two seconds have gone by, two of them at one instant. -/
def overdue : Agenda Unit :=
  ⟨[{ Action.new "telemetry" "1" () (Duration.ofSeconds 60) with remaining := -3 },
    (Action.new "commission" "2" () (Duration.ofSeconds 60)).after (Duration.ofSeconds 5),
    { Action.new "heartbeat" "3" () (Duration.ofSeconds 20) with remaining := -4 },
    { Action.new "watch_workers" "4" () (Duration.ofSeconds 45) with remaining := -3 }], 0⟩

theorem drained_of_positive_overdue :
    (∀ x ∈ overdue.aged (Duration.ofSeconds 2), x.isDue = true → 0 < x.period) ∧
      overdue.Countable (Duration.ofSeconds 2) ∧
      ∃ due b, overdue.Drained (Duration.ofSeconds 2) due b ∧
        (due.map (·.fire)).map (·.name) = ["heartbeat", "telemetry", "watch_workers"] := by
  have hpositive : ∀ x ∈ overdue.aged (Duration.ofSeconds 2), x.isDue = true → 0 < x.period := by
    decide
  have hcount : overdue.Countable (Duration.ofSeconds 2) := by
    unfold Countable Action.InRange
    decide
  obtain ⟨due, b, hdrained⟩ := (drained_of_positive overdue _ hpositive).1 hcount
  refine ⟨hpositive, hcount, due, b, hdrained, ?_⟩
  have hlength : due.length = 3 := hdrained.order.perm.length_eq
  have hdrain := hdrained.drain 4 (by omega)
  have hnames : (overdue.drain (Duration.ofSeconds 2) 4).map (fun r => r.1.map (·.name)) =
      .ok ["heartbeat", "telemetry", "watch_workers"] := rfl
  rw [hdrain] at hnames
  exact Except.ok.inj hnames

/-- Whoever has been due for as long as can be counted does not run a millisecond later,
whatever his period. -/
theorem not_drained_neglected :
    (Agenda.new [Action.new "telemetry" "1" () (Duration.ofSeconds 1)] 0).observe
        Action.maxCountdown = .ok neglected ∧
      (∀ x ∈ neglected.actions, x.isDue = true ∧ 0 < x.period) ∧
      neglected.callNext (Action.maxCountdown + Duration.ofMillis 1) = .error .outOfRange ∧
      ∀ ran b, ¬Drains (Action.maxCountdown + Duration.ofMillis 1) neglected ran b := by
  have hfails := callNext_of_not_countable not_countable_neglected
  refine ⟨rfl, by decide, hfails, ?_⟩
  intro ran b h
  have hdrain := h.drain_eq _ (Nat.lt_succ_self _)
  rw [drain_of_not_countable not_countable_neglected] at hdrain
  cases hdrain

end Agenda
end EdgeAgent
