import EdgeAgent.Proofs.Data.Table
import EdgeAgent.Proofs.Monitor.Station
import EdgeAgent.Telemetry.Basic

/-! # The stations of telemetry

A turn, a round or a request lets the stations go on, each as by itself: their labels
stay, and so does what happens to them when their slots are filled otherwise.
-/

namespace EdgeAgent

/-- What a station keeps. -/
def Station.label {μ : Type} (s : Station μ) : String × Bool × Nat := (s.name, s.enabled, s.period)

theorem Station.Alike.label {μ : Type} {s s' : Station μ} (h : s.Alike s') :
    s'.label = s.label := by
  unfold Station.label
  rw [h.name, h.enabled, h.period]

namespace Telemetry

variable {μ : Type}

def labels (t : Telemetry μ) : Table (String × Bool × Nat) := t.stations.mapRows fun _ s => s.label

theorem find?_labels (t : Telemetry μ) (name : String) :
    t.labels.find? name = (t.stations.find? name).map Station.label := Table.find?_mapRows _ _ _

def atop (t : Telemetry μ) (old : String → Option Payload) : Telemetry μ :=
  { t with stations := t.stations.mapRows fun name s => s.atop (old name) }

theorem find?_atop (t : Telemetry μ) (old : String → Option Payload) (name : String) :
    (t.atop old).stations.find? name = (t.stations.find? name).map (·.atop (old name)) :=
  Table.find?_mapRows _ _ _

/-! ## One station -/

theorem modifyIn_labels (t : Telemetry μ) (name : String) (w : World)
    {f : Station μ → World → Station μ × World}
    (hf : ∀ (s : Station μ) (w : World), s.Alike (f s w).1) :
    (t.modifyIn name w f).1.labels = t.labels ∧ (t.modifyIn name w f).1.period = t.period := by
  unfold modifyIn
  cases hs : t.stations.find? name with
  | none => exact ⟨rfl, rfl⟩
  | some s =>
      refine ⟨?_, rfl⟩
      have hfound : t.labels.find? name = some (f s w).1.label := by
        rw [find?_labels, hs, Option.map_some, (hf s w).label]
      exact (Table.mapRows_insert _ _ _ _).trans (Table.insert_of_find?_eq_some hfound)

theorem mapRows_labels (t : Telemetry μ) {f : String → Station μ → Station μ}
    (hf : ∀ name (s : Station μ), s.Alike (f name s)) :
    { t with stations := t.stations.mapRows f }.labels = t.labels := by
  apply Table.ext_find?
  intro name
  simp only [find?_labels, Table.find?_mapRows]
  cases t.stations.find? name with
  | none => rfl
  | some s => simp [(hf name s).label]

theorem modifyIn_atop (t : Telemetry μ) (name : String) (w : World) (old : String → Option Payload)
    {f : Station μ → World → Station μ × World}
    (hf : ∀ s w old, f (s.atop old) w = ((f s w).1.atop old, (f s w).2)) :
    (t.atop old).modifyIn name w f =
      ((t.modifyIn name w f).1.atop old, (t.modifyIn name w f).2) := by
  unfold modifyIn
  rw [find?_atop]
  cases t.stations.find? name with
  | none => rfl
  | some s =>
      simp only [Option.map_some, hf]
      unfold atop
      rw [Table.mapRows_insert]

theorem mapRows_atop (t : Telemetry μ) (old : String → Option Payload)
    {f : String → Station μ → Station μ}
    (hf : ∀ name s old, f name (s.atop old) = (f name s).atop old) :
    { t.atop old with stations := (t.atop old).stations.mapRows f } =
      { t with stations := t.stations.mapRows f }.atop old := by
  have hstations : (t.atop old).stations.mapRows f =
      ({ t with stations := t.stations.mapRows f }.atop old).stations := by
    apply Table.ext_find?
    intro name
    simp only [find?_atop, Table.find?_mapRows]
    cases t.stations.find? name with
    | none => rfl
    | some s => simp [hf]
  rw [hstations]
  rfl

theorem modify_labels (t : Telemetry μ) (name : String) {f : Station μ → Station μ}
    (hf : ∀ s : Station μ, s.Alike (f s)) : (t.modify name f).labels = t.labels := by
  refine mapRows_labels t ?_
  intro n s
  split
  · exact hf s
  · exact .refl s

theorem modify_atop (t : Telemetry μ) (name : String) (old : String → Option Payload)
    {f : Station μ → Station μ} (hf : ∀ s old, f (s.atop old) = (f s).atop old) :
    (t.atop old).modify name f = (t.modify name f).atop old := by
  refine mapRows_atop t old ?_
  intro n s old
  split
  · exact hf s old
  · rfl

/-! ## Whose turn it is -/

theorem canGoOn_atop (t : Telemetry μ) (old : String → Option Payload) :
    (t.atop old).canGoOn = t.canGoOn := by
  have hgathering : (t.atop old).gathering = t.gathering := rfl
  unfold canGoOn
  rw [hgathering]
  cases t.gathering with
  | nil => rfl
  | cons name rest =>
      simp only [find?_atop]
      cases t.stations.find? name <;> rfl

theorem firstRow_atop (old : String → Option Payload) (now : Nat)
    (rows : List (String × Station μ)) :
    Timer.firstRow (fun s => s.due now) (rows.map fun r => (r.1, r.2.atop (old r.1))) =
      Timer.firstRow (fun s : Station μ => s.due now) rows := by
  induction rows with
  | nil => rfl
  | cons r rows ih =>
      have hdue : (r.2.atop (old r.1)).due now = r.2.due now := rfl
      simp only [List.map_cons, Timer.firstRow, hdue, ih]

variable [Monitor μ]

/-! ## Rounds -/

theorem askFirst_labels (t : Telemetry μ) (now : Nat) (w : World) :
    (t.askFirst now w).1.labels = t.labels ∧ (t.askFirst now w).1.period = t.period := by
  unfold askFirst
  split
  · exact ⟨rfl, rfl⟩
  · exact modifyIn_labels t _ w fun s w => s.request_alike .outside now w

theorem askFirst_atop (t : Telemetry μ) (now : Nat) (w : World) (old : String → Option Payload) :
    (t.atop old).askFirst now w = ((t.askFirst now w).1.atop old, (t.askFirst now w).2) := by
  have hgathering : (t.atop old).gathering = t.gathering := rfl
  unfold askFirst
  rw [hgathering]
  cases t.gathering with
  | nil => rfl
  | cons name rest =>
      exact modifyIn_atop t name w old fun s w old => s.request_atop .outside now w old

theorem gather_labels (t : Telemetry μ) (now : Nat) (w : World) :
    (t.gather now w).1.labels = t.labels ∧ (t.gather now w).1.period = t.period :=
  askFirst_labels { t with gathering := t.stations.keys } now w

theorem gather_atop (t : Telemetry μ) (now : Nat) (w : World) (old : String → Option Payload) :
    (t.atop old).gather now w = ((t.gather now w).1.atop old, (t.gather now w).2) := by
  have hkeys : (t.atop old).stations.keys = t.stations.keys := by
    simp [atop, Table.keys, Table.mapRows]
  unfold gather
  rw [hkeys]
  exact askFirst_atop { t with gathering := t.stations.keys } now w old

theorem goOn_labels (t : Telemetry μ) (now : Nat) (w : World) :
    (t.goOn now w).1.labels = t.labels ∧ (t.goOn now w).1.period = t.period := by
  unfold goOn
  split
  · exact ⟨rfl, rfl⟩
  · rename_i name rest _
    obtain ⟨hlabels, hperiod⟩ :=
      askFirst_labels { t.modify name fun s => s.start now with gathering := rest } now w
    exact ⟨hlabels.trans (modify_labels t name fun s => s.start_alike now), hperiod⟩

theorem goOn_atop (t : Telemetry μ) (now : Nat) (w : World) (old : String → Option Payload) :
    (t.atop old).goOn now w = ((t.goOn now w).1.atop old, (t.goOn now w).2) := by
  have hgathering : (t.atop old).gathering = t.gathering := rfl
  unfold goOn
  rw [hgathering]
  cases t.gathering with
  | nil => rfl
  | cons name rest =>
      dsimp only
      rw [modify_atop t name old fun s old => s.start_atop now old]
      exact askFirst_atop { t.modify name fun s => s.start now with gathering := rest } now w old

/-! ## Turns -/

theorem turn_labels (t : Telemetry μ) (now : Nat) (w : World) :
    (t.turn now w).1.labels = t.labels ∧ (t.turn now w).1.period = t.period := by
  unfold turn
  split
  · exact goOn_labels t now w
  · split
    · exact modifyIn_labels t _ w fun s w => s.turn_alike now w
    · exact ⟨rfl, rfl⟩

theorem turn_atop (t : Telemetry μ) (now : Nat) (w : World) (old : String → Option Payload) :
    (t.atop old).turn now w = ((t.turn now w).1.atop old, (t.turn now w).2) := by
  have hnext : (t.atop old).nextStation? now = t.nextStation? now :=
    firstRow_atop old now t.stations.rows
  unfold turn
  rw [canGoOn_atop, hnext]
  split
  · exact goOn_atop t now w old
  · cases t.nextStation? now with
    | none => rfl
    | some found => exact modifyIn_atop t found.1 w old fun s w old => s.turn_atop now w old

end Telemetry
end EdgeAgent
