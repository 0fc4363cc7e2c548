import Capcurl.Core.Call

/-!
# The daemon's listener, and the clients that connect to it

The loop of `run` in `capcurld/src/main.rs`. It accepts the connections in the order in which they came,
and serves each in a task of its own, all by one configuration that none of them changes. A client can
send before it is accepted.
-/

namespace Capcurl.Core

/-- Where a client stands with the daemon. -/
inductive Visit where
  | away
  | waiting (call : Call)
  | accepted (call : Call)

structure Service where
  /-- Every client, with what it asks for. -/
  visits : List (Ask × Visit)
  /-- The clients that are not accepted yet, the first one first. -/
  queue : List Nat
  /-- How often `accept` has still to fail. -/
  faults : Nat

def Service.start (asks : List Ask) (faults : Nat) : Service where
  visits := asks.map fun ask => (ask, .away)
  queue := []
  faults := faults

/-- A step of the loop, or of one client and its connection. The listener holds at most `slots` clients
that are not accepted. -/
inductive Serve (config : Config) (backlog : Backlog) (cap : Capacity) (slots : Nat) :
    Service → Service → Prop where
  | connects (i : Nat) (ask : Ask) (visits : List (Ask × Visit)) (queue : List Nat) (faults : Nat)
    (hvisit : visits[i]? = some (ask, .away)) (hroom : queue.length < slots) :
    Serve config backlog cap slots ⟨visits, queue, faults⟩
      ⟨visits.set i (ask, .waiting (Call.start ask)), queue ++ [i], faults⟩
  /-- The daemon's side of the connection does not run yet. -/
  | sends (i : Nat) (ask : Ask) (call call' : Call) (visits : List (Ask × Visit)) (queue : List Nat)
    (faults : Nat) (hvisit : visits[i]? = some (ask, .waiting call))
    (hturn : Turn config ask backlog cap call call') (hserver : call'.server = call.server) :
    Serve config backlog cap slots ⟨visits, queue, faults⟩
      ⟨visits.set i (ask, .waiting call'), queue, faults⟩
  /-- The loop goes on. -/
  | acceptFails (visits : List (Ask × Visit)) (queue : List Nat) (faults : Nat) :
    Serve config backlog cap slots ⟨visits, queue, faults + 1⟩ ⟨visits, queue, faults⟩
  | accepts (i : Nat) (ask : Ask) (call : Call) (visits : List (Ask × Visit)) (queue : List Nat)
    (faults : Nat) (hvisit : visits[i]? = some (ask, .waiting call)) :
    Serve config backlog cap slots ⟨visits, i :: queue, faults⟩
      ⟨visits.set i (ask, .accepted call), queue, faults⟩
  | turns (i : Nat) (ask : Ask) (call call' : Call) (visits : List (Ask × Visit)) (queue : List Nat)
    (faults : Nat) (hvisit : visits[i]? = some (ask, .accepted call))
    (hturn : Turn config ask backlog cap call call') :
    Serve config backlog cap slots ⟨visits, queue, faults⟩
      ⟨visits.set i (ask, .accepted call'), queue, faults⟩

end Capcurl.Core
