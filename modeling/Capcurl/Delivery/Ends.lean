import Capcurl.Core.Duplex
import Capcurl.Lib.Transition

/-! # Every run of the two programs ends -/

namespace Capcurl.Delivery

open Lib Http Policy Capcurl.Core

/-- How far the client is from its end. A byte counts for two until it is written, and then for one in the
channel. -/
def clientWork : Client → Nat
  | .writing pending => 2 * pending.flatten.length + pending.length + 2
  | .readingHead _ => 1
  | .readingBody .. => 1
  | .returned _ => 0

def daemonWork : Daemon → Nat
  | .writing _ pending => 2 * pending.flatten.length + pending.length + 2
  | .shut => 1
  | _ => 0

/-- The request first, and what reads it; then the answer. -/
def work (d : Duplex) : Nat × Nat :=
  (clientWork d.client + d.up.length + (if d.daemon.isReading then 1 else 0),
    daemonWork d.daemon + d.down.length)

theorem clientWork_reading (client : Client) (h : client.isReading = true) : clientWork client = 1 := by
  cases client with
  | writing pending => cases h
  | readingHead buf => rfl
  | readingBody status reason headers length buf => rfl
  | returned r => cases h

theorem clientWork_body (status : UInt16) (reason : Text) (headers : List Header) (length : Nat)
    (buf : Bytes) : clientWork (Client.resumeBody status reason headers length buf) ≤ 1 := by
  unfold Client.resumeBody
  split
  · exact Nat.le_refl 1
  · exact Nat.zero_le 1
  · exact Nat.zero_le 1

theorem clientWork_head (buf : Bytes) : clientWork (Client.resumeHead buf) ≤ 1 := by
  unfold Client.resumeHead
  split
  · exact Nat.le_refl 1
  · exact Nat.zero_le 1
  · unfold Client.parsed
    split
    · exact Nat.zero_le 1
    · split
      · exact Nat.zero_le 1
      · exact clientWork_body _ _ _ _ _

theorem clientWork_read (client : Client) (part : Bytes) (h : client.isReading = true) :
    clientWork (client.read part) ≤ clientWork client := by
  rw [clientWork_reading client h]
  cases client with
  | writing pending => cases h
  | readingHead buf => exact clientWork_head _
  | readingBody status reason headers length buf => exact clientWork_body _ _ _ _ _
  | returned r => cases h

theorem clientWork_ended (client : Client) (h : client.isReading = true) : clientWork client.ended = 0 := by
  cases client with
  | writing pending => cases h
  | readingHead buf => rfl
  | readingBody status reason headers length buf => rfl
  | returned r => cases h

theorem ended_quiet (daemon : Daemon) : daemon.ended.isReading = false := by
  cases daemon <;> rfl

theorem step_works (m : Mint) (cap : Capacity) (d d' : Duplex) (hstep : Step m cap d d') :
    (work d').1 < (work d).1 ∨ (work d').1 = (work d).1 ∧ (work d').2 < (work d).2 := by
  cases hstep with
  | clientWrites up down part more rest daemon hpart hroom hopen =>
    have hpos := List.length_pos_of_ne_nil hpart
    simp only [work, clientWork, List.flatten_cons, List.length_append, List.length_cons]
    omega
  | clientWrote up down rest daemon =>
    simp only [work, clientWork, List.flatten_cons, List.length_append, List.length_cons]
    omega
  | clientTurns up down daemon =>
    simp only [work, clientWork, Client.resumeHead_nil]
    omega
  | clientFails up down buf rest hbuf =>
    simp only [work, clientWork]
    omega
  | clientReads up part down client daemon hreading hpart hmax =>
    have hpos := List.length_pos_of_ne_nil hpart
    have hread := clientWork_read client part hreading
    simp only [work, List.length_append]
    omega
  | clientEnds up client daemon hreading hgone =>
    have hfirst := clientWork_reading client hreading
    have hlast := clientWork_ended client hreading
    simp only [work, hfirst, hlast]
    omega
  | daemonReads part up down client daemon hreading hpart hmax =>
    have hpos := List.length_pos_of_ne_nil hpart
    have hnext : (if (daemon.read m part).isReading then 1 else 0) ≤ 1 := by split <;> decide
    simp only [work, List.length_append, hreading, if_true]
    omega
  | daemonEnds down r daemon hreading =>
    simp only [work, hreading, ended_quiet, if_true, Bool.false_eq_true, if_false]
    omega
  | daemonWrites up down part more rest client outcome hpart hroom hopen =>
    have hpos := List.length_pos_of_ne_nil hpart
    simp only [work, daemonWork, List.flatten_cons, List.length_append, List.length_cons]
    exact .inr ⟨rfl, by omega⟩
  | daemonWrote up down rest client outcome =>
    simp only [work, daemonWork, List.flatten_cons, List.length_append, List.length_cons]
    exact .inr ⟨rfl, by omega⟩
  | daemonFails up down buf rest r outcome hbuf =>
    simp only [work, daemonWork]
    exact .inr ⟨rfl, by omega⟩
  | daemonShuts up down client outcome =>
    simp only [work, daemonWork]
    exact .inr ⟨rfl, by omega⟩
  | daemonCloses up down client =>
    simp only [work, daemonWork]
    exact .inr ⟨rfl, by omega⟩

theorem runs_end (m : Mint) (cap : Capacity) :
    ¬ ∃ f : Nat → Duplex, ∀ n, Step m cap (f n) (f (n + 1)) :=
  no_infinite_run work (step_works m cap)

end Capcurl.Delivery
