import Capcurl.Calls
import Capcurl.Core.Listener

/-! # Every client is answered -/

namespace Capcurl.Listener

open Lib Http Policy Capcurl.Core Delivery Calls

variable (config : Config) (backlog : Backlog) (cap : Capacity)

/-! ## Every run ends -/

/-- How far a client has still to go, besides its call. -/
def stage : Visit → Nat
  | .away => 2
  | .waiting _ => 1
  | .accepted _ => 0

def callOf (ask : Ask) : Visit → Call
  | .away => Call.start ask
  | .waiting call => call
  | .accepted call => call

def Worked (c c' : Call) : Prop := mintWork c' < mintWork c ∨ mintWork c' = mintWork c ∧ Exchanged c c'

theorem worked_wellFounded : WellFounded fun c' c => Worked c c' :=
  terminates_lex mintWork Exchanged exchanged_wellFounded fun _ _ h => h

/-- A step of one client. -/
def Moves (v v' : Ask × Visit) : Prop :=
  stage v'.2 < stage v.2 ∨
    stage v'.2 = stage v.2 ∧ Worked (callOf v.1 v.2) (callOf v'.1 v'.2)

theorem moves_wellFounded : WellFounded fun v' v => Moves v v' :=
  terminates_lex (fun v => stage v.2) (fun v v' => Worked (callOf v.1 v.2) (callOf v'.1 v'.2))
    (InvImage.wf _ worked_wellFounded) fun _ _ h => h

theorem serve_moves (slots : Nat) (s s' : Service) (h : Serve config backlog cap slots s s') :
    s'.faults < s.faults ∨ s'.faults = s.faults ∧ OneSteps Moves s.visits s'.visits := by
  cases h with
  | connects i ask visits queue faults hvisit hroom =>
    exact .inr ⟨rfl, i, _, (ask, .waiting (Call.start ask)), hvisit, .inl (Nat.lt_succ_self 1), rfl⟩
  | sends i ask call call' visits queue faults hvisit hturn hserver =>
    have hwork := turn_works config ask backlog cap call call' hturn
    exact .inr ⟨rfl, i, _, (ask, .waiting call'), hvisit, .inr ⟨rfl, hwork⟩, rfl⟩
  | acceptFails visits queue faults => exact .inl (Nat.lt_succ_self faults)
  | accepts i ask call visits queue faults hvisit =>
    exact .inr ⟨rfl, i, _, (ask, .accepted call), hvisit, .inl Nat.one_pos, rfl⟩
  | turns i ask call call' visits queue faults hvisit hturn =>
    have hwork := turn_works config ask backlog cap call call' hturn
    exact .inr ⟨rfl, i, _, (ask, .accepted call'), hvisit, .inr ⟨rfl, hwork⟩, rfl⟩

theorem serve_wellFounded (slots : Nat) :
    WellFounded fun s' s => Serve config backlog cap slots s s' :=
  terminates_lex Service.faults (fun s s' => OneSteps Moves s.visits s'.visits)
    (InvImage.wf Service.visits (oneSteps_terminates moves_wellFounded))
    (serve_moves config backlog cap slots)

/-! ## What holds throughout -/

/-- The call is one of this client. -/
def Begun (ask : Ask) : Visit → Prop
  | .away => True
  | .waiting call | .accepted call => ∃ turns, Path (Turn config ask backlog cap) (Call.start ask) turns call

structure Steady (asks : List Ask) (s : Service) : Prop where
  asks : s.visits.map Prod.fst = asks
  begun : ∀ (i : Nat) (ask : Ask) (visit : Visit), s.visits[i]? = some (ask, visit) →
    Begun config backlog cap ask visit
  distinct : s.queue.Nodup
  queued : ∀ i, i ∈ s.queue ↔ ∃ ask call, s.visits[i]? = some (ask, .waiting call)

theorem visit_set (visits : List (Ask × Visit)) (i j : Nat) (old new : Ask × Visit) (h : visits[i]? = some old) :
    (visits.set i new)[j]? = if i = j then some new else visits[j]? := by
  obtain ⟨hi, -⟩ := List.getElem?_eq_some_iff.mp h
  rw [List.getElem?_set, if_pos hi]

section Steps

variable (slots : Nat) (asks : List Ask)

theorem start_visit (faults i : Nat) (ask : Ask) (visit : Visit)
    (h : (Service.start asks faults).visits[i]? = some (ask, visit)) : visit = .away := by
  rw [Service.start, List.getElem?_map, Option.map_eq_some_iff] at h
  obtain ⟨ask', -, hvisit⟩ := h
  exact (Prod.mk.inj hvisit).2.symm

theorem steady_start (faults : Nat) : Steady config backlog cap asks (Service.start asks faults) where
  asks := by
    rw [Service.start, List.map_map]
    exact List.map_id asks
  begun := by
    intro i ask visit hvisit
    rw [start_visit asks faults i ask visit hvisit]
    trivial
  distinct := List.nodup_nil
  queued := by
    intro i
    refine iff_of_false List.not_mem_nil ?_
    rintro ⟨ask, call, hvisit⟩
    cases start_visit asks faults i ask _ hvisit

theorem steady_set (s : Service) (h : Steady config backlog cap asks s) (i : Nat) (ask : Ask)
    (old new : Visit) (hvisit : s.visits[i]? = some (ask, old)) (hnew : Begun config backlog cap ask new)
    (queue : List Nat) (faults : Nat) (hdistinct : queue.Nodup)
    (hqueue : ∀ j, j ∈ queue ↔ (i ≠ j ∧ j ∈ s.queue) ∨ i = j ∧ ∃ call, new = .waiting call) :
    Steady config backlog cap asks ⟨s.visits.set i (ask, new), queue, faults⟩ where
  asks := by
    rw [← h.asks]
    apply List.ext_getElem?
    intro j
    rw [List.getElem?_map, List.getElem?_map, visit_set _ _ _ _ _ hvisit]
    split
    · rename_i hij
      rw [← hij, hvisit]
      rfl
    · rfl
  begun := by
    intro j ask' visit hj
    rw [visit_set _ _ _ _ _ hvisit] at hj
    split at hj
    · cases hj
      exact hnew
    · exact h.begun j ask' visit hj
  distinct := hdistinct
  queued := by
    intro j
    simp only [visit_set _ _ _ _ _ hvisit, hqueue j, h.queued j]
    by_cases hij : i = j
    · subst hij
      simp
    · simp [hij]

theorem not_queued (s : Service) (h : Steady config backlog cap asks s) (i : Nat) (ask : Ask) (visit : Visit)
    (hvisit : s.visits[i]? = some (ask, visit)) (hno : ∀ call, visit ≠ .waiting call) : i ∉ s.queue := by
  rw [h.queued i]
  rintro ⟨ask', call, hwaiting⟩
  rw [hvisit, Option.some.injEq, Prod.mk.injEq] at hwaiting
  exact hno call hwaiting.2

theorem steady_serve (s s' : Service) (h : Steady config backlog cap asks s)
    (hstep : Serve config backlog cap slots s s') : Steady config backlog cap asks s' := by
  cases hstep with
  | connects i ask visits queue faults hvisit hroom =>
    have hout := not_queued config backlog cap asks _ h i ask _ hvisit fun call => by simp
    apply steady_set config backlog cap asks _ h i ask .away (.waiting (Call.start ask)) hvisit
    · exact ⟨[], .nil⟩
    · exact List.nodup_append.mpr ⟨h.distinct, List.nodup_singleton i, by grind⟩
    · intro j
      simp only [List.mem_append, List.mem_singleton, Visit.waiting.injEq, exists_eq', and_true]
      grind
  | sends i ask call call' visits queue faults hvisit hturn hserver =>
    have hin : i ∈ queue := (h.queued i).mpr ⟨ask, call, hvisit⟩
    obtain ⟨turns, hrun⟩ := h.begun i ask _ hvisit
    apply steady_set config backlog cap asks _ h i ask (.waiting call) (.waiting call') hvisit
    · exact ⟨_, .snoc hrun hturn⟩
    · exact h.distinct
    · intro j
      simp only [Visit.waiting.injEq, exists_eq', and_true]
      grind
  | acceptFails visits queue faults => exact ⟨h.asks, h.begun, h.distinct, h.queued⟩
  | accepts i ask call visits queue faults hvisit =>
    obtain ⟨hout, hdistinct⟩ := List.nodup_cons.mp h.distinct
    apply steady_set config backlog cap asks _ h i ask (.waiting call) (.accepted call) hvisit
    · exact h.begun i ask (.waiting call) hvisit
    · exact hdistinct
    · intro j
      simp only [reduceCtorEq, exists_false, and_false, or_false]
      grind
  | turns i ask call call' visits queue faults hvisit hturn =>
    have hout := not_queued config backlog cap asks _ h i ask _ hvisit fun call => by simp
    obtain ⟨turns, hrun⟩ := h.begun i ask _ hvisit
    apply steady_set config backlog cap asks _ h i ask (.accepted call) (.accepted call') hvisit
    · exact ⟨_, .snoc hrun hturn⟩
    · exact h.distinct
    · intro j
      simp only [reduceCtorEq, exists_false, and_false, or_false]
      grind

theorem steady_stuck (hslots : 0 < slots) (s : Service) (h : Steady config backlog cap asks s)
    (hstuck : Stuck (Serve config backlog cap slots) s) (i : Nat) (ask : Ask) (visit : Visit)
    (hvisit : s.visits[i]? = some (ask, visit)) :
    ∃ call, visit = .accepted call ∧ Stuck (Turn config ask backlog cap) call := by
  obtain ⟨visits, queue, faults⟩ := s
  have hempty : queue = [] := by
    cases queue with
    | nil => rfl
    | cons j queue =>
      obtain ⟨ask', call, hwaiting⟩ := (h.queued j).mp List.mem_cons_self
      exact absurd (Serve.accepts j ask' call visits queue faults hwaiting) (hstuck _)
  subst hempty
  cases visit with
  | away => exact absurd (Serve.connects i ask visits [] faults hvisit hslots) (hstuck _)
  | waiting call => exact absurd ((h.queued i).mpr ⟨ask, call, hvisit⟩) List.not_mem_nil
  | accepted call =>
    refine ⟨call, rfl, fun call' hturn => ?_⟩
    exact hstuck _ (Serve.turns i ask call call' visits [] faults hvisit hturn)

end Steps

/-- What a client has, once it is done. -/
def holds : Visit → Option (Except (Halt CoreError) Response)
  | .away => none
  | .waiting call | .accepted call => outcome call.caller

theorem holds_invoke (ask : Ask) (hhonest : Honest config ask) (hanswer : AnswerFits config ask) (visit : Visit)
    (h : Begun config backlog cap ask visit) (r : Except (Halt CoreError) Response)
    (hr : holds visit = some r) : r = (invoke config ask).mapError .err := by
  cases visit with
  | away => cases hr
  | waiting call | accepted call =>
    obtain ⟨turns, hrun⟩ := h
    exact outcome_invoke config ask backlog cap hhonest hanswer turns call hrun r hr

/-- **Every client is answered**: any number of clients of one endpoint, which come, send and are accepted
in any order, with `accept` failing now and then. Their connections are served side by side, in any
interleaving. No run goes on forever. At no time does an honest client, of an origin whose answer to it has a
head that fits, have anything but that answer, and when nothing can go on, it has it. -/
theorem every_client_answered (slots : Nat) (hslots : 0 < slots) (asks : List Ask) (faults : Nat) :
    (¬ ∃ f : Nat → Service, ∀ n, Serve config backlog cap slots (f n) (f (n + 1))) ∧
    ∀ steps s, Path (Serve config backlog cap slots) (Service.start asks faults) steps s →
      ∀ (i : Nat) (ask : Ask), asks[i]? = some ask → Honest config ask → AnswerFits config ask →
        ∃ visit, s.visits[i]? = some (ask, visit) ∧
          (∀ r, holds visit = some r → r = (invoke config ask).mapError .err) ∧
          (Stuck (Serve config backlog cap slots) s →
            visit = .accepted (finished config ask) ∧
              holds visit = some ((invoke config ask).mapError .err)) := by
  refine ⟨no_infinite_run_of (serve_wellFounded config backlog cap slots), ?_⟩
  intro steps s hrun i ask hask hhonest hanswer
  have hsteady := path_preserves (Steady config backlog cap asks)
    (fun t u => steady_serve config backlog cap slots asks t u) hrun (steady_start config backlog cap asks faults)
  obtain ⟨visit, hvisit⟩ : ∃ visit, s.visits[i]? = some (ask, visit) := by
    rw [← hsteady.asks, List.getElem?_map, Option.map_eq_some_iff] at hask
    obtain ⟨⟨ask', visit⟩, hvisit, rfl⟩ := hask
    exact ⟨visit, hvisit⟩
  have hbegun := hsteady.begun i ask visit hvisit
  refine ⟨visit, hvisit, fun r hr => holds_invoke config backlog cap ask hhonest hanswer visit hbegun r hr, ?_⟩
  intro hstuck
  obtain ⟨call, rfl, hover⟩ := steady_stuck config backlog cap slots asks hslots s hsteady hstuck i ask visit hvisit
  obtain ⟨turns, hcall⟩ := hbegun
  have hfinal := call_finished config ask backlog cap hhonest hanswer turns call hcall hover
  subst hfinal
  exact ⟨rfl, finished_outcome config ask⟩

theorem every_client_answered_both :
    ∃ steps s, Path (Serve plainMint.config oneEach roomy 1) (Service.start [plainAsk, plainAsk] 1) steps s ∧
      s.visits[0]? = some (plainAsk, .accepted (finished plainMint.config plainAsk)) ∧
      s.visits[1]? = some (plainAsk, .accepted (finished plainMint.config plainAsk)) := by
  obtain ⟨steps, s, hrun, hcomplete⟩ :=
    exists_complete_of (serve_wellFounded plainMint.config oneEach roomy 1) (Service.start [plainAsk, plainAsk] 1)
  have hanswered := (every_client_answered plainMint.config oneEach roomy 1 (by decide) [plainAsk, plainAsk] 1).2
    steps s hrun
  obtain ⟨first, hfirst, -, hfirstDone⟩ := hanswered 0 plainAsk rfl plain_honest plain_fits
  obtain ⟨second, hsecond, -, hsecondDone⟩ := hanswered 1 plainAsk rfl plain_honest plain_fits
  rw [(hfirstDone hcomplete).1] at hfirst
  rw [(hsecondDone hcomplete).1] at hsecond
  exact ⟨steps, s, hrun, hfirst, hsecond⟩

end Capcurl.Listener
