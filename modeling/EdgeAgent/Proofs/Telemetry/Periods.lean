import EdgeAgent.Proofs.Telemetry.Stations

/-! # The period of telemetry

Telemetry and its stations follow one period, also those that are set up anew: they
get the period that is in force.
-/

namespace EdgeAgent.Telemetry

variable {μ : Type}

/-- Telemetry and all of its stations follow a period. -/
structure Follows (t : Telemetry μ) (period : Nat) : Prop where
  own : t.period = period
  stations : ∀ name s, t.stations.find? name = some s → s.period = Duration.wholeMillis period

theorem Follows.of_labels {t t' : Telemetry μ} {period : Nat} (h : t.Follows period)
    (hlabels : t'.labels = t.labels) (hperiod : t'.period = t.period) : t'.Follows period := by
  refine ⟨hperiod.trans h.own, ?_⟩
  intro name s hs
  have hlabel := congrArg (·.find? name) hlabels
  simp only [find?_labels, hs, Option.map_some] at hlabel
  obtain ⟨s', hs', hl⟩ := Option.map_eq_some_iff.mp hlabel.symm
  have hsame : s'.period = s.period := congrArg (·.2.2) hl
  exact hsame.symm.trans (h.stations name s' hs')

theorem setPeriod_follows (t : Telemetry μ) (period : Nat) :
    (t.setPeriod period).Follows period := by
  refine ⟨rfl, ?_⟩
  intro name s hs
  rw [setPeriod, Table.find?_mapRows] at hs
  obtain ⟨s', _, rfl⟩ := Option.map_eq_some_iff.mp hs
  rfl

theorem Follows.modify {t : Telemetry μ} {period : Nat} (h : t.Follows period) (name : String)
    {f : Station μ → Station μ} (hf : ∀ s : Station μ, s.Alike (f s)) :
    (t.modify name f).Follows period := h.of_labels (modify_labels t name hf) rfl

theorem Follows.stopAll {t : Telemetry μ} {period : Nat} (h : t.Follows period) :
    t.stopAll.Follows period := h.of_labels (mapRows_labels t fun _ _ => ⟨rfl, rfl, rfl⟩) rfl

theorem Follows.snapshot {t : Telemetry μ} {period : Nat} (h : t.Follows period) (w : World) :
    (t.snapshot w).2.1.Follows period := by
  refine h.of_labels (mapRows_labels t ?_) rfl
  intro _ s
  split <;> exact ⟨rfl, rfl, rfl⟩

variable [Monitor μ]

theorem Follows.turn {t : Telemetry μ} {period : Nat} (h : t.Follows period) (now : Nat)
    (w : World) : (t.turn now w).1.Follows period :=
  h.of_labels (t.turn_labels now w).1 (t.turn_labels now w).2

theorem Follows.gather {t : Telemetry μ} {period : Nat} (h : t.Follows period) (now : Nat)
    (w : World) : (t.gather now w).1.Follows period :=
  h.of_labels (t.gather_labels now w).1 (t.gather_labels now w).2

/-! ## Stations that are set up -/

theorem setUp_periods (excluded : List String) (period now : Nat) (registry : List (Registration μ))
    {stations : Table (Station μ)} (w : World)
    (h : ∀ name s, stations.find? name = some s → s.period = Duration.wholeMillis period) :
    ∀ name s, (setUp excluded period now registry stations w).1.find? name = some s →
      s.period = Duration.wholeMillis period := by
  induction registry generalizing stations w with
  | nil => exact h
  | cons r rest ih =>
      unfold setUp
      split
      · exact ih w h
      · refine ih _ ?_
        intro name s hs
        split at hs
        · rw [Table.find?_insert] at hs
          split at hs
          · cases hs
            rfl
          · exact h name s hs
        · exact h name s hs

theorem new_follows (registry : List (Registration μ)) (excluded : Option String)
    (period now : Nat) (w : World) : (new registry excluded period now w).1.Follows period :=
  ⟨rfl, setUp_periods _ period now registry w fun _ _ h => nomatch h⟩

theorem reviveAll_periods (period now : Nat) (registry : List (Registration μ))
    {stations : Table (Station μ)} (w : World)
    (h : ∀ name s, stations.find? name = some s → s.period = Duration.wholeMillis period) :
    ∀ name s, (reviveAll period now registry stations w).2.1.find? name = some s →
      s.period = Duration.wholeMillis period := by
  induction registry generalizing stations w with
  | nil => exact h
  | cons r rest ih =>
      unfold reviveAll
      cases hs : stations.find? r.name with
      | none => exact ih w h
      | some s =>
          dsimp only
          split
          · exact ih w h
          · refine ih _ ?_
            intro name s hs
            rw [Table.find?_insert] at hs
            split at hs
            · cases hs
              exact (Station.start_alike _ now).period
            · exact h name s hs

theorem Follows.check {t : Telemetry μ} {period : Nat} (h : t.Follows period) (now : Nat)
    (w : World) : (t.check now w).1.Follows period := by
  refine ⟨h.own, ?_⟩
  rw [← h.own]
  refine reviveAll_periods t.period now t.registry (w.say moduleName .running "") ?_
  rw [h.own]
  exact h.stations

end EdgeAgent.Telemetry
