import EdgeAgent.Commission.Commissioner
import EdgeAgent.Proofs.Commission.Attributes

/-! # Runs of the commissioner

A run is seen from the server: which requests arrive, and whether they are granted.
There is one exactly when the attributes have changed, and what is granted is what
the commissioner takes for accepted.
-/

namespace EdgeAgent

namespace Remote

/-- The requests that came since the server was in an earlier state, the last one
first. -/
def arrivals (earlier : Remote) : Server → List Request
  | .remote s => (s.received.take (s.received.length - earlier.received.length)).map (·.2)
  | .statusFile _ => []

/-- The server accepts a request at an instant. -/
def grants (s : Remote) (now : Nat) (r : Request) : Bool :=
  match (s.receive now r).1.outcome r with
  | .ok _ => true
  | .error _ => false

end Remote

namespace Commissioner

def requests (c : Commissioner) (now : Nat) (w : World) (server : Remote) : List Request :=
  server.arrivals (c.start now { w with server := .remote server }).2.server

/-- A run from its start to its end; in between the surroundings may have become
others. -/
def run (c : Commissioner) (now : Nat) (w : World) (server : Remote) (later : World) :
    Bool × Commissioner × World :=
  c.finish (c.start now { w with server := .remote server }).1 later

theorem run_unchanged {c : Commissioner} {w : World}
    (h : c.current w.engine w.edge = c.accepted) (now : Nat) (server : Remote) (later : World) :
    c.requests now w server = [] ∧ c.run now w server later = (false, c, later) := by
  have hnone : Attributes.request c.accepted (c.current w.engine w.edge) = none :=
    Attributes.request_eq_none_iff.mpr h
  have hstart : c.start now { w with server := .remote server } =
      (none, World.say { w with server := .remote server } moduleName .running "") := by
    unfold start
    simp only [World.say, hnone]
  rw [requests, run, hstart]
  refine ⟨?_, rfl⟩
  simp [Remote.arrivals, World.say]

theorem run_changed {c : Commissioner} {w : World} {payload : Document}
    (h : Attributes.request c.accepted (c.current w.engine w.edge) = some payload) (now : Nat)
    (server : Remote) (later : World) :
    c.requests now w server = [.commission payload] ∧
      (c.run now w server later).1 = server.grants now (.commission payload) ∧
      (c.run now w server later).2.1 =
        (if server.grants now (.commission payload) then
          { c with accepted := c.current w.engine w.edge } else c) ∧
      (c.run now w server later).2.2.files =
        (if server.grants now (.commission payload) then
          save later.files c.file (c.current w.engine w.edge) else later.files) := by
  have hstart : c.start now { w with server := .remote server } =
      (some ⟨c.current w.engine w.edge, (server.receive now (.commission payload)).1.delay,
          (server.receive now (.commission payload)).1.outcome (.commission payload)⟩,
        { World.say { w with server := .remote server } moduleName .running "" with
          server := .remote (server.receive now (.commission payload)).2 }) := by
    unfold start
    simp only [World.say, h]
    rfl
  rw [requests, run, hstart]
  refine ⟨?_, ?_⟩
  · simp [Remote.arrivals, Remote.receive]
  · unfold finish Remote.grants
    cases (server.receive now (.commission payload)).1.outcome (.commission payload) with
    | ok r => exact ⟨rfl, rfl, rfl⟩
    | error e => exact ⟨rfl, rfl, rfl⟩

end Commissioner
end EdgeAgent
