import Capcurl.Core.Call
import Capcurl.Delivery.Answers

/-! # A whole call, from the mint to the answer -/

namespace Capcurl.Calls

open Lib Http Policy Capcurl.Core Agreement ResponseCodec Delivery

/-! ## Every call ends -/

/-- What is left of the mint. A message counts for two until it is sent, and then for one in the
channel; a daemon that reads has at most three to send. -/
def callerWork : Caller → Nat
  | .sending queue => 2 * queue.length + 2
  | .awaiting _ => 1
  | _ => 0

def serverWork : Server → Nat
  | .reading _ => 8
  | .granting queue _ => 2 * queue.length + 1
  | .denying queue _ _ => 2 * queue.length + 1
  | _ => 0

def mintWork (c : Call) : Nat :=
  callerWork c.caller + c.toServer.length + serverWork c.server + c.toCaller.length

/-- What is left of the exchange on the descriptor. -/
def exchangeWork (c : Call) : Nat × Nat :=
  match c.caller, c.server with
  | .calling client, .serving _ daemon => work ⟨c.up, c.down, client, daemon⟩
  | _, _ => (0, 0)

theorem callerWork_receive (ask : Ask) (bound : Bound) (message : Received) :
    callerWork (Caller.receive ask bound message) ≤ 1 := by
  unfold Caller.receive
  repeat' split
  all_goals simp [callerWork]

theorem serverWork_grant (queue : List Message) (m : Mint) :
    serverWork (Server.grant queue m) ≤ 2 * queue.length + 1 := by
  unfold Server.grant
  split
  · exact Nat.zero_le _
  · exact Nat.le_refl _

theorem serverWork_receive (config : Config) (args : List Text) (message : Received) :
    serverWork (Server.receive config args message) ≤ 8 := by
  have hdeny : ∀ e, serverWork (Server.deny e) ≤ 8 := fun e => by simp [Server.deny, serverWork]
  unfold Server.receive
  split
  · split
    · exact hdeny _
    · split
      · exact hdeny _
      · exact Nat.le_refl 8
  · split
    · unfold Server.resolve
      split
      · simp [serverWork]
      · exact (serverWork_grant _ _).trans (by simp)
    · exact hdeny _
  · exact hdeny _

section Turns

variable (config : Config) (ask : Ask) (backlog : Backlog) (cap : Capacity)

theorem turn_works (c c' : Call) (hturn : Turn config ask backlog cap c c') :
    mintWork c' < mintWork c ∨ mintWork c' = mintWork c ∧
      ((exchangeWork c').1 < (exchangeWork c).1 ∨
        (exchangeWork c').1 = (exchangeWork c).1 ∧ (exchangeWork c').2 < (exchangeWork c).2) := by
  cases hturn with
  | callerSends message queue toServer toCaller server up down hroom hopen =>
    left
    simp only [mintWork, callerWork, List.length_append, List.length_cons, List.length_nil]
    omega
  | callerLost message queue toServer toCaller e up down =>
    left
    simp only [mintWork, callerWork]
    omega
  | callerSent toServer toCaller server up down =>
    left
    simp only [mintWork, callerWork]
    omega
  | callerReceives bound message toServer toCaller server up down =>
    have hnext := callerWork_receive ask bound message.received
    have hlast : callerWork (.awaiting bound) = 1 := rfl
    left
    simp only [mintWork, hlast, List.length_cons]
    omega
  | callerEnds bound toServer e up down =>
    left
    simp only [mintWork, callerWork]
    omega
  | serverReceives args message toServer toCaller caller up down =>
    have hnext := serverWork_receive config args message.received
    have hlast : serverWork (.reading args) = 8 := rfl
    left
    simp only [mintWork, hlast, List.length_cons]
    omega
  | serverEnds args toCaller e up down =>
    left
    simp [mintWork, serverWork, Server.deny]
  | serverGrants message queue toServer toCaller m caller up down hroom hopen =>
    have hnext := serverWork_grant queue m
    have hlast : serverWork (.granting (message :: queue) m) = 2 * (queue.length + 1) + 1 := rfl
    left
    simp only [mintWork, hlast, List.length_append, List.length_cons, List.length_nil]
    omega
  | serverDenies message queue toServer toCaller e lost caller up down hroom hopen =>
    left
    simp only [mintWork, serverWork, List.length_append, List.length_cons, List.length_nil]
    omega
  | grantLost message queue toServer toCaller m e up down =>
    left
    simp only [mintWork, serverWork]
    omega
  | denialLost message queue toServer toCaller e e' lost up down =>
    left
    simp only [mintWork, serverWork]
    omega
  | serverReturns toServer toCaller e lost caller up down =>
    left
    simp [mintWork, serverWork]
  | exchanges toServer toCaller m up down up' down' client client' daemon daemon' hstep =>
    right
    refine ⟨rfl, ?_⟩
    exact step_works m cap _ _ hstep

def Exchanged (c c' : Call) : Prop :=
  (exchangeWork c').1 < (exchangeWork c).1 ∨
    (exchangeWork c').1 = (exchangeWork c).1 ∧ (exchangeWork c').2 < (exchangeWork c).2

theorem exchanged_wellFounded : WellFounded fun c' c => Exchanged c c' :=
  terminates exchangeWork fun _ _ h => h

theorem turns_wellFounded : WellFounded fun c' c => Turn config ask backlog cap c c' :=
  terminates_lex mintWork Exchanged exchanged_wellFounded (turn_works config ask backlog cap)

end Turns

/-! ## What a call is for -/

/-- A call in one step: an answer, or why there is none. -/
def invoke (config : Config) (ask : Ask) : Except CoreError Response :=
  match config.grant.resolve config.parseUrl ask.method ask.target with
  | .error why => .error (.refused why.text)
  | .ok (boundMethod, url) =>
    let answer :=
      respond ⟨config, boundMethod, boundTargetOf config.grant ask.target, url⟩ ask.headers ask.body
    .ok (responseOf answer.1 answer.2)

/-- What the client has, once it is done. -/
def outcome : Caller → Option (Except (Halt CoreError) Response)
  | .failed e => some (.error (.err e))
  | .calling (.returned r) => some r
  | _ => none

/-! ## Where a call stands -/

def Granted (config : Config) (ask : Ask) (m : Mint) : Prop :=
  ∃ boundMethod url,
    config.grant.resolve config.parseUrl ask.method ask.target = .ok (boundMethod, url) ∧
      m = ⟨config, boundMethod, boundTargetOf config.grant ask.target, url⟩

/-- The client has seen these messages of a grant. -/
inductive Hearing (ask : Ask) (m : Mint) : Caller → List Message → Prop where
  | busy : Hearing ask m (.sending []) []
  | nothing : Hearing ask m (.awaiting ⟨ask.method, ask.target, 0⟩) []
  | method : Hearing ask m (.awaiting ⟨m.boundMethod, ask.target, 1⟩) [.arg m.boundMethod]
  | target : Hearing ask m (.awaiting ⟨m.boundMethod, m.boundTarget, 2⟩)
      [.arg m.boundMethod, .arg m.boundTarget]

inductive HearingDenial (ask : Ask) (text : Text) : Caller → List Message → Prop where
  | busy : HearingDenial ask text (.sending []) []
  | nothing : HearingDenial ask text (.awaiting ⟨ask.method, ask.target, 0⟩) []
  | refused : HearingDenial ask text (.failed (.refused text)) [.error text]

inductive Phase (config : Config) (ask : Ask) (cap : Capacity) (c : Call) : Prop where
  | asking (args : List Text) (unsent : List Message)
    (hcaller : c.caller = .sending unsent ∨
      unsent = [] ∧ c.caller = .awaiting ⟨ask.method, ask.target, 0⟩)
    (hserver : c.server = .reading args)
    (hall : args.map .arg ++ (c.toServer ++ unsent) = [.arg ask.method, .arg ask.target, .end_])
    (hquiet : c.toCaller = [] ∧ c.up = [] ∧ c.down = [])
  | granted (m : Mint) (seen unsent : List Message) (hm : Granted config ask m)
    (hcaller : Hearing ask m c.caller seen) (hserver : c.server = Server.grant unsent m)
    (hall : seen ++ (c.toCaller ++ unsent) = [.arg m.boundMethod, .arg m.boundTarget, .fds 1])
    (hquiet : c.toServer = [] ∧ c.up = [] ∧ c.down = [])
  | denied (why : Denied) (seen unsent : List Message)
    (hwhy : config.grant.resolve config.parseUrl ask.method ask.target = .error why)
    (hcaller : HearingDenial ask why.text c.caller seen)
    (hserver : (∃ lost, c.server = .denying unsent (.denied why) lost) ∨
      unsent = [] ∧ c.server = .done (.denied why))
    (hall : seen ++ (c.toCaller ++ unsent) = [.error why.text])
    (hquiet : c.toServer = [] ∧ c.up = [] ∧ c.down = [])
  | calling (m : Mint) (client : Client) (daemon : Daemon) (hm : Granted config ask m)
    (hcaller : c.caller = .calling client) (hserver : c.server = .serving m daemon)
    (hrun : ∃ steps, Path (Step m cap)
      (Duplex.start m.boundMethod m.boundTarget ask.headers ask.body) steps
      ⟨c.up, c.down, client, daemon⟩)
    (hquiet : c.toServer = [] ∧ c.toCaller = [])

section Phases

variable (config : Config) (ask : Ask) (backlog : Backlog) (cap : Capacity)

theorem phase_start : Phase config ask cap (Call.start ask) :=
  .asking [] _ (.inl rfl) rfl rfl ⟨rfl, rfl, rfl⟩

theorem request_received (args : List Text) (message : Message) (rest : List Message)
    (hall : args.map .arg ++ (message :: rest) = [.arg ask.method, .arg ask.target, .end_]) :
    (∃ value, Server.receive config args message.received = .reading (args ++ [value]) ∧
        message = .arg value) ∨
      Server.receive config args message.received = Server.resolve config ask.method ask.target ∧
        rest = [] := by
  match args, hall with
  | [], hall =>
    obtain ⟨rfl, -⟩ := List.cons.inj hall
    exact .inl ⟨ask.method, rfl, rfl⟩
  | [a], hall =>
    obtain ⟨ha, hall⟩ := List.cons.inj hall
    obtain ⟨rfl, -⟩ := List.cons.inj hall
    exact .inl ⟨ask.target, rfl, rfl⟩
  | [a, b], hall =>
    obtain ⟨ha, hall⟩ := List.cons.inj hall
    obtain ⟨hb, hall⟩ := List.cons.inj hall
    obtain ⟨rfl, rfl⟩ := List.cons.inj hall
    obtain rfl := Message.arg.inj ha
    obtain rfl := Message.arg.inj hb
    exact .inr ⟨rfl, rfl⟩
  | a :: b :: c :: args, hall =>
    obtain ⟨-, hall⟩ := List.cons.inj hall
    obtain ⟨-, hall⟩ := List.cons.inj hall
    obtain ⟨hc, -⟩ := List.cons.inj hall
    cases hc

variable (c c' : Call)

theorem asking_turn (args : List Text) (unsent : List Message)
    (hcaller : c.caller = .sending unsent ∨
      unsent = [] ∧ c.caller = .awaiting ⟨ask.method, ask.target, 0⟩)
    (hserver : c.server = .reading args)
    (hall : args.map .arg ++ (c.toServer ++ unsent) = [.arg ask.method, .arg ask.target, .end_])
    (hquiet : c.toCaller = [] ∧ c.up = [] ∧ c.down = []) (hturn : Turn config ask backlog cap c c') :
    Phase config ask cap c' := by
  cases hturn with
  | callerSends message queue toServer toCaller server up down hroom hopen =>
    rcases hcaller with hsending | ⟨-, hawaiting⟩
    · obtain rfl := Caller.sending.inj hsending
      refine .asking args queue (.inl rfl) hserver ?_ hquiet
      rw [← hall]
      simp
    · cases hawaiting
  | callerLost => cases hserver
  | callerSent toServer toCaller server up down =>
    rcases hcaller with hsending | ⟨-, hawaiting⟩
    · obtain rfl := Caller.sending.inj hsending
      exact .asking args [] (.inr ⟨rfl, rfl⟩) hserver hall hquiet
    · cases hawaiting
  | callerReceives => cases hquiet.1
  | callerEnds => cases hserver
  | serverReceives args' message toServer toCaller caller up down =>
    obtain rfl := Server.reading.inj hserver
    rcases request_received config ask args' message (toServer ++ unsent) hall with
      ⟨value, hreads, rfl⟩ | ⟨hresolves, hrest⟩
    · refine .asking (args' ++ [value]) unsent hcaller hreads ?_ hquiet
      rw [← hall]
      simp
    · obtain ⟨rfl, rfl⟩ := List.append_eq_nil_iff.mp hrest
      obtain rfl : toCaller = [] := hquiet.1
      unfold Server.resolve at hresolves
      cases hresolve : config.grant.resolve config.parseUrl ask.method ask.target with
      | error why =>
        rw [hresolve] at hresolves
        refine .denied why [] _ hresolve ?_ (.inl ⟨_, hresolves⟩) rfl ⟨rfl, hquiet.2⟩
        rcases hcaller with hsending | ⟨-, hawaiting⟩
        · obtain rfl : caller = .sending [] := hsending
          exact .busy
        · obtain rfl : caller = .awaiting _ := hawaiting
          exact .nothing
      | ok bound =>
        rw [hresolve] at hresolves
        refine .granted ⟨config, bound.1, boundTargetOf config.grant ask.target, bound.2⟩ [] _
          ⟨bound.1, bound.2, hresolve, rfl⟩ ?_ hresolves rfl ⟨rfl, hquiet.2⟩
        rcases hcaller with hsending | ⟨-, hawaiting⟩
        · obtain rfl : caller = .sending [] := hsending
          exact .busy
        · obtain rfl : caller = .awaiting _ := hawaiting
          exact .nothing
  | serverEnds => rcases hcaller with hsending | ⟨-, hawaiting⟩ <;> contradiction
  | serverGrants => cases hserver
  | serverDenies => cases hserver
  | grantLost => cases hserver
  | denialLost => cases hserver
  | serverReturns => cases hserver
  | exchanges => cases hserver

theorem hearing_open (m : Mint) (caller : Caller) (seen : List Message) (h : Hearing ask m caller seen) :
    outcome caller = none ∧ ∀ client, caller ≠ .calling client := by
  cases h <;> exact ⟨rfl, nofun⟩

theorem grant_cases (unsent : List Message) (m : Mint) :
    unsent = [] ∧ Server.grant unsent m = .serving m (.readingHead []) ∨
      unsent ≠ [] ∧ Server.grant unsent m = .granting unsent m := by
  cases unsent with
  | nil => exact .inl ⟨rfl, rfl⟩
  | cons message queue => exact .inr ⟨List.cons_ne_nil _ _, rfl⟩

theorem grant_received (m : Mint) (bound : Bound) (seen rest : List Message) (message : Message)
    (h : Hearing ask m (.awaiting bound) seen)
    (hall : seen ++ (message :: rest) = [.arg m.boundMethod, .arg m.boundTarget, .fds 1]) :
    Hearing ask m (Caller.receive ask bound message.received) (seen ++ [message]) ∨
      rest = [] ∧ Caller.receive ask bound message.received =
        .calling (Client.start m.boundMethod m.boundTarget ask.headers ask.body) := by
  cases h with
  | nothing =>
    obtain ⟨rfl, -⟩ := List.cons.inj hall
    exact .inl .method
  | method =>
    obtain ⟨-, hall⟩ := List.cons.inj hall
    obtain ⟨rfl, -⟩ := List.cons.inj hall
    exact .inl .target
  | target =>
    obtain ⟨-, hall⟩ := List.cons.inj hall
    obtain ⟨-, hall⟩ := List.cons.inj hall
    obtain ⟨rfl, rfl⟩ := List.cons.inj hall
    exact .inr ⟨rfl, rfl⟩

theorem granted_turn (m : Mint) (seen unsent : List Message) (hm : Granted config ask m)
    (hcaller : Hearing ask m c.caller seen) (hserver : c.server = Server.grant unsent m)
    (hall : seen ++ (c.toCaller ++ unsent) = [.arg m.boundMethod, .arg m.boundTarget, .fds 1])
    (hquiet : c.toServer = [] ∧ c.up = [] ∧ c.down = []) (hturn : Turn config ask backlog cap c c') :
    Phase config ask cap c' := by
  have hopen := hearing_open ask m c.caller seen hcaller
  have hgrant := grant_cases unsent m
  rw [← hserver] at hgrant
  cases hturn with
  | callerSends => cases hcaller
  | callerLost => cases hcaller
  | callerSent toServer toCaller server up down =>
    cases hcaller
    exact .granted m [] unsent hm .nothing hserver hall hquiet
  | callerReceives bound message toServer toCaller server up down =>
    rcases grant_received ask m bound seen (toCaller ++ unsent) message hcaller hall with
      hnext | ⟨hrest, hcalls⟩
    · refine .granted m (seen ++ [message]) unsent hm hnext hserver ?_ hquiet
      rw [← hall]
      simp
    · obtain ⟨rfl, rfl⟩ := List.append_eq_nil_iff.mp hrest
      obtain ⟨hserverInbox, rfl, rfl⟩ := hquiet
      exact .calling m _ _ hm hcalls hserver ⟨[], .nil⟩ ⟨hserverInbox, rfl⟩
  | callerEnds => rcases hgrant with ⟨-, h⟩ | ⟨-, h⟩ <;> cases h
  | serverReceives => rcases hgrant with ⟨-, h⟩ | ⟨-, h⟩ <;> cases h
  | serverEnds => cases hcaller
  | serverGrants message queue toServer toCaller m' caller up down hroom hopen =>
    rcases hgrant with ⟨-, h⟩ | ⟨-, h⟩
    · cases h
    · cases h
      refine .granted m seen queue hm hcaller rfl ?_ hquiet
      rw [← hall]
      simp
  | serverDenies => rcases hgrant with ⟨-, h⟩ | ⟨-, h⟩ <;> cases h
  | grantLost => cases hcaller
  | denialLost => cases hcaller
  | serverReturns => rcases hgrant with ⟨-, h⟩ | ⟨-, h⟩ <;> cases h
  | exchanges => exact absurd rfl (hopen.2 _)

theorem denied_turn (why : Denied) (seen unsent : List Message)
    (hwhy : config.grant.resolve config.parseUrl ask.method ask.target = .error why)
    (hcaller : HearingDenial ask why.text c.caller seen)
    (hserver : (∃ lost, c.server = .denying unsent (.denied why) lost) ∨
      unsent = [] ∧ c.server = .done (.denied why))
    (hall : seen ++ (c.toCaller ++ unsent) = [.error why.text])
    (hquiet : c.toServer = [] ∧ c.up = [] ∧ c.down = []) (hturn : Turn config ask backlog cap c c') :
    Phase config ask cap c' := by
  cases hturn with
  | callerSends => cases hcaller
  | callerLost => cases hcaller
  | callerSent toServer toCaller server up down =>
    cases hcaller
    exact .denied why [] unsent hwhy .nothing hserver hall hquiet
  | callerReceives bound message toServer toCaller server up down =>
    cases hcaller
    obtain ⟨rfl, hrest⟩ := List.cons.inj hall
    refine .denied why [.error why.text] unsent hwhy .refused hserver ?_ hquiet
    exact congrArg (Message.error why.text :: ·) hrest
  | callerEnds bound toServer e up down =>
    -- the denial is in the channel by then
    cases hcaller
    rcases hserver with ⟨lost, h⟩ | ⟨rfl, -⟩
    · cases h
    · cases hall
  | serverReceives => rcases hserver with ⟨lost, h⟩ | ⟨-, h⟩ <;> cases h
  | serverEnds => rcases hserver with ⟨lost, h⟩ | ⟨-, h⟩ <;> cases h
  | serverGrants => rcases hserver with ⟨lost, h⟩ | ⟨-, h⟩ <;> cases h
  | serverDenies message queue toServer toCaller e lost caller up down hroom hopen =>
    rcases hserver with ⟨lost', h⟩ | ⟨-, h⟩
    · cases h
      refine .denied why seen queue hwhy hcaller (.inl ⟨lost, rfl⟩) ?_ hquiet
      rw [← hall]
      simp
    · cases h
  | grantLost => rcases hserver with ⟨lost, h⟩ | ⟨-, h⟩ <;> cases h
  | denialLost message queue toServer toCaller e e' lost up down =>
    -- a client that has failed has read the denial
    cases hcaller
    rcases hserver with ⟨lost', h⟩ | ⟨-, h⟩
    · cases h
      simp at hall
    · cases h
  | serverReturns toServer toCaller e lost caller up down =>
    rcases hserver with ⟨lost', h⟩ | ⟨-, h⟩
    · cases h
      exact .denied why seen [] hwhy hcaller (.inr ⟨rfl, rfl⟩) hall hquiet
    · cases h
  | exchanges => cases hcaller

theorem phase_turn (h : Phase config ask cap c) (hturn : Turn config ask backlog cap c c') :
    Phase config ask cap c' := by
  cases h with
  | asking args unsent hcaller hserver hall hquiet =>
    exact asking_turn config ask backlog cap c c' args unsent hcaller hserver hall hquiet hturn
  | granted m seen unsent hm hcaller hserver hall hquiet =>
    exact granted_turn config ask backlog cap c c' m seen unsent hm hcaller hserver hall hquiet hturn
  | denied why seen unsent hwhy hcaller hserver hall hquiet =>
    exact denied_turn config ask backlog cap c c' why seen unsent hwhy hcaller hserver hall hquiet hturn
  | calling m client daemon hm hcaller hserver hrun hquiet =>
    cases hturn with
    | exchanges toServer toCaller m' up down up' down' client' client'' daemon' daemon'' hstep =>
      cases hcaller
      cases hserver
      obtain ⟨steps, hpath⟩ := hrun
      exact .calling m _ _ hm rfl rfl ⟨_, hpath.snoc hstep⟩ hquiet
    | callerReceives => cases hcaller
    | callerSends => cases hcaller
    | callerLost => cases hcaller
    | callerSent => cases hcaller
    | callerEnds => cases hcaller
    | serverReceives => cases hserver
    | serverEnds => cases hserver
    | serverGrants => cases hserver
    | serverDenies => cases hserver
    | grantLost => cases hserver
    | denialLost => cases hserver
    | serverReturns => cases hserver

theorem stuck_awaiting (toServer toCaller : List Message) (bound : Bound) (server : Server)
    (up down : Bytes)
    (hstuck : Stuck (Turn config ask backlog cap)
      ⟨toServer, toCaller, .awaiting bound, server, up, down⟩) : toCaller = [] := by
  cases toCaller with
  | nil => rfl
  | cons message toCaller =>
    exact absurd (Turn.callerReceives bound message toServer toCaller server up down) (hstuck _)

theorem stuck_asking (args : List Text) (unsent : List Message)
    (hcaller : c.caller = .sending unsent ∨
      unsent = [] ∧ c.caller = .awaiting ⟨ask.method, ask.target, 0⟩)
    (hserver : c.server = .reading args)
    (hall : args.map .arg ++ (c.toServer ++ unsent) = [.arg ask.method, .arg ask.target, .end_]) :
    ¬ Stuck (Turn config ask backlog cap) c := by
  intro hstuck
  obtain ⟨toServer, toCaller, caller, server, up, down⟩ := c
  obtain rfl : server = .reading args := hserver
  cases toServer with
  | cons message toServer =>
    exact hstuck _ (Turn.serverReceives args message toServer toCaller caller up down)
  | nil =>
    rcases hcaller with hsending | ⟨rfl, -⟩
    · obtain rfl : caller = .sending unsent := hsending
      cases unsent with
      | nil => exact hstuck _ (Turn.callerSent [] toCaller _ up down)
      | cons message queue =>
        exact hstuck _
          (Turn.callerSends message queue [] toCaller _ up down backlog.toServer_pos nofun)
    · -- the request ends with what is no argument
      have hend : Message.end_ ∈ args.map Message.arg := by
        have hargs : args.map Message.arg = [.arg ask.method, .arg ask.target, .end_] := by
          simpa using hall
        rw [hargs]
        simp
      simp at hend

theorem stuck_granted (m : Mint) (seen unsent : List Message) (hcaller : Hearing ask m c.caller seen)
    (hserver : c.server = Server.grant unsent m)
    (hall : seen ++ (c.toCaller ++ unsent) = [.arg m.boundMethod, .arg m.boundTarget, .fds 1]) :
    ¬ Stuck (Turn config ask backlog cap) c := by
  intro hstuck
  obtain ⟨toServer, toCaller, caller, server, up, down⟩ := c
  have hopen : ∀ e, caller ≠ .failed e := by
    rintro e rfl
    cases hcaller
  have hnone : toCaller = [] := by
    cases hcaller with
    | busy => exact absurd (Turn.callerSent toServer toCaller server up down) (hstuck _)
    | nothing => exact stuck_awaiting config ask backlog cap toServer toCaller _ server up down hstuck
    | method => exact stuck_awaiting config ask backlog cap toServer toCaller _ server up down hstuck
    | target => exact stuck_awaiting config ask backlog cap toServer toCaller _ server up down hstuck
  rw [hnone] at hstuck hall
  cases unsent with
  | nil =>
    have hthree := congrArg List.length hall
    cases hcaller <;> simp at hthree
  | cons message queue =>
    obtain rfl : server = .granting (message :: queue) m := hserver
    exact hstuck _
      (Turn.serverGrants message queue toServer [] m caller up down backlog.toCaller_pos hopen)

theorem stuck_denied (why : Denied) (seen unsent : List Message)
    (hcaller : HearingDenial ask why.text c.caller seen)
    (hserver : (∃ lost, c.server = .denying unsent (.denied why) lost) ∨
      unsent = [] ∧ c.server = .done (.denied why))
    (hall : seen ++ (c.toCaller ++ unsent) = [.error why.text])
    (hstuck : Stuck (Turn config ask backlog cap) c) :
    c.toCaller = [] ∧ c.caller = .failed (.refused why.text) ∧ c.server = .done (.denied why) := by
  obtain ⟨toServer, toCaller, caller, server, up, down⟩ := c
  cases hcaller with
  | busy => exact absurd (Turn.callerSent toServer toCaller server up down) (hstuck _)
  | nothing =>
    obtain rfl := stuck_awaiting config ask backlog cap toServer toCaller _ server up down hstuck
    rcases hserver with ⟨lost, hserver⟩ | ⟨rfl, -⟩
    · obtain rfl : unsent = [.error why.text] := hall
      obtain rfl : server = .denying _ _ lost := hserver
      have hopen : ∀ e, Caller.awaiting ⟨ask.method, ask.target, 0⟩ ≠ .failed e := nofun
      exact absurd (Turn.serverDenies _ [] toServer [] _ lost _ up down backlog.toCaller_pos hopen)
        (hstuck _)
    · cases hall
  | refused =>
    obtain ⟨-, hrest⟩ := List.cons.inj hall
    obtain ⟨rfl, rfl⟩ : toCaller = [] ∧ unsent = [] := List.append_eq_nil_iff.mp hrest
    rcases hserver with ⟨lost, hserver⟩ | ⟨-, hdone⟩
    · obtain rfl : server = .denying [] _ lost := hserver
      exact absurd (Turn.serverReturns toServer [] _ lost _ up down) (hstuck _)
    · exact ⟨rfl, rfl, hdone⟩

theorem phase_stuck (h : Phase config ask cap c) (hstuck : Stuck (Turn config ask backlog cap) c) :
    (∃ why, config.grant.resolve config.parseUrl ask.method ask.target = .error why ∧
      c = ⟨[], [], .failed (.refused why.text), .done (.denied why), [], []⟩) ∨
    ∃ m d steps, Granted config ask m ∧
      c = ⟨[], [], .calling d.client, .serving m d.daemon, d.up, d.down⟩ ∧
      Path (Step m cap) (Duplex.start m.boundMethod m.boundTarget ask.headers ask.body) steps d ∧
      Stuck (Step m cap) d := by
  cases h with
  | asking args unsent hcaller hserver hall hquiet =>
    exact absurd hstuck (stuck_asking config ask backlog cap c args unsent hcaller hserver hall)
  | granted m seen unsent hm hcaller hserver hall hquiet =>
    exact absurd hstuck (stuck_granted config ask backlog cap c m seen unsent hcaller hserver hall)
  | denied why seen unsent hwhy hcaller hserver hall hquiet =>
    obtain ⟨htoCaller, hfailed, hdone⟩ :=
      stuck_denied config ask backlog cap c why seen unsent hcaller hserver hall hstuck
    obtain ⟨toServer, toCaller, caller, server, up, down⟩ := c
    obtain ⟨rfl, rfl, rfl⟩ := hquiet
    obtain rfl : toCaller = [] := htoCaller
    obtain rfl : caller = _ := hfailed
    obtain rfl : server = _ := hdone
    exact .inl ⟨why, hwhy, rfl⟩
  | calling m client daemon hm hcaller hserver hrun hquiet =>
    obtain ⟨toServer, toCaller, caller, server, up, down⟩ := c
    obtain ⟨rfl, rfl⟩ := hquiet
    obtain rfl : caller = .calling client := hcaller
    obtain rfl : server = .serving m daemon := hserver
    obtain ⟨steps, hpath⟩ := hrun
    refine .inr ⟨m, ⟨up, down, client, daemon⟩, steps, hm, rfl, hpath, ?_⟩
    rintro ⟨up', down', client', daemon'⟩ hstep
    exact hstuck _ (Turn.exchanges [] [] m up down up' down' client client' daemon daemon' hstep)

end Phases

/-! ## Every call -/

/-- What a client sends of its own accord: header fields, a body that the endpoint takes, and, when the
grant resolves the request, a head that the daemon takes. -/
structure Honest (config : Config) (ask : Ask) : Prop where
  headers : Sendable ask.headers
  body : ask.body.length ≤ config.grant.maxRequestBody.toNat
  head : ∀ m, Granted config ask m →
    (requestHead m.boundMethod m.boundTarget ask.headers ask.body.length).length ≤ maxHeadLen

/-- The answer to the request has a head that the client takes. It is the origin that decides this. -/
def AnswerFits (config : Config) (ask : Ask) : Prop :=
  ∀ m, Granted config ask m → Fits (respond m ask.headers ask.body)

/-- The call, once it is over. -/
def finished (config : Config) (ask : Ask) : Call :=
  match config.grant.resolve config.parseUrl ask.method ask.target with
  | .error why => ⟨[], [], .failed (.refused why.text), .done (.denied why), [], []⟩
  | .ok (boundMethod, url) =>
    let m : Mint := ⟨config, boundMethod, boundTargetOf config.grant ask.target, url⟩
    let answer := respond m ask.headers ask.body
    ⟨[], [], .calling (.returned (.ok (responseOf answer.1 answer.2))), .serving m .closed, [], []⟩

theorem finished_outcome (config : Config) (ask : Ask) :
    outcome (finished config ask).caller = some ((invoke config ask).mapError .err) := by
  unfold finished invoke
  cases config.grant.resolve config.parseUrl ask.method ask.target <;> rfl

section Every

variable (config : Config) (ask : Ask) (backlog : Backlog) (cap : Capacity)

theorem call_finished (hhonest : Honest config ask) (hanswer : AnswerFits config ask) (turns : List (Call × Call)) (final : Call)
    (hrun : Path (Turn config ask backlog cap) (Call.start ask) turns final)
    (hcomplete : Stuck (Turn config ask backlog cap) final) : final = finished config ask := by
  have hlast := path_preserves (Phase config ask cap)
    (fun c c' => phase_turn config ask backlog cap c c') hrun (phase_start config ask cap)
  rcases phase_stuck config ask backlog cap final hlast hcomplete with
    ⟨why, hwhy, rfl⟩ | ⟨m, d, steps, hm, rfl, hpath, hstuck⟩
  · unfold finished
    rw [hwhy]
  · have hfits := hanswer m hm
    have hhead := hhonest.head m hm
    obtain ⟨boundMethod, url, hresolve, rfl⟩ := hm
    have hask := askable_of_resolve config _ _ boundMethod url ask.headers ask.body hresolve
      hhonest.headers hhonest.body hhead
    have hdone := asked_answered _ cap ask.headers ask.body hask hfits steps d hpath hstuck
    unfold finished
    rw [hdone, hresolve]
    rfl

theorem outcome_turn (c c' : Call) (hturn : Turn config ask backlog cap c c')
    (r : Except (Halt CoreError) Response) (h : outcome c.caller = some r) : outcome c'.caller = some r := by
  cases hturn with
  | callerSends => cases h
  | callerLost => cases h
  | callerSent => cases h
  | callerReceives => cases h
  | callerEnds => cases h
  | serverReceives => exact h
  | serverEnds => exact h
  | serverGrants => exact h
  | serverDenies => exact h
  | grantLost => exact h
  | denialLost => exact h
  | serverReturns => exact h
  | exchanges toServer toCaller m up down up' down' client client' daemon daemon' hstep =>
    cases client with
    | returned r' =>
      have hsame := returned_step m cap _ _ r' rfl hstep
      simp only at hsame
      rw [hsame]
      exact h
    | _ => cases h

theorem outcome_invoke (hhonest : Honest config ask) (hanswer : AnswerFits config ask) (turns : List (Call × Call)) (c : Call)
    (hrun : Path (Turn config ask backlog cap) (Call.start ask) turns c)
    (r : Except (Halt CoreError) Response) (h : outcome c.caller = some r) :
    r = (invoke config ask).mapError .err := by
  obtain ⟨more, final, hmore, hcomplete⟩ := exists_complete_of (turns_wellFounded config ask backlog cap) c
  have hfinal := call_finished config ask backlog cap hhonest hanswer _ final (path_append hrun hmore) hcomplete
  have hkept := path_preserves (fun c => outcome c.caller = some r)
    (fun t u ht hstep => outcome_turn config ask backlog cap t u hstep r ht) hmore h
  rw [hfinal, finished_outcome] at hkept
  exact (Option.some.inj hkept).symm

end Every

/-- **A call is what it is for.** The mint and the exchange, in whatever order the two programs take
their turns, and whatever the channels hold, come to an end, and end with the client holding what the
call in one step gives it. -/
theorem call_refines_invoke (config : Config) (ask : Ask) (backlog : Backlog) (cap : Capacity)
    (hhonest : Honest config ask) (hanswer : AnswerFits config ask) :
    (¬ ∃ f : Nat → Call, ∀ n, Turn config ask backlog cap (f n) (f (n + 1))) ∧
    ∀ turns final, Path (Turn config ask backlog cap) (Call.start ask) turns final →
      Stuck (Turn config ask backlog cap) final →
      final = finished config ask ∧ outcome final.caller = some ((invoke config ask).mapError .err) := by
  refine ⟨no_infinite_run_of (turns_wellFounded config ask backlog cap), ?_⟩
  intro turns final hrun hcomplete
  have hfinal := call_finished config ask backlog cap hhonest hanswer turns final hrun hcomplete
  refine ⟨hfinal, ?_⟩
  rw [hfinal, finished_outcome]

def plainAsk : Ask := ⟨ascii "GET", ascii "/x", [], []⟩

def oneEach : Backlog := ⟨1, 1, by decide, by decide⟩

theorem plain_resolved :
    plainMint.config.grant.resolve plainMint.config.parseUrl plainAsk.method plainAsk.target =
      .ok (plainMint.boundMethod, plainMint.url) := by
  decide +kernel

theorem plain_granted (m : Mint) (h : Granted plainMint.config plainAsk m) : m = plainMint := by
  obtain ⟨boundMethod, url, hresolve, rfl⟩ := h
  rw [plain_resolved] at hresolve
  cases hresolve
  rfl

theorem plain_honest : Honest plainMint.config plainAsk := by
  refine ⟨⟨by decide, nofun, nofun, nofun, nofun⟩, by decide, fun m hm => ?_⟩
  rw [plain_granted m hm]
  decide

theorem plain_fits : AnswerFits plainMint.config plainAsk := by
  intro m hm
  rw [plain_granted m hm]
  decide +kernel

theorem call_refines_invoke_plain :
    ∃ turns final, Path (Turn plainMint.config plainAsk oneEach roomy) (Call.start plainAsk) turns final ∧
      Stuck (Turn plainMint.config plainAsk oneEach roomy) final ∧
      outcome final.caller = some ((invoke plainMint.config plainAsk).mapError .err) := by
  obtain ⟨turns, final, hrun, hcomplete⟩ :=
    exists_complete_of (turns_wellFounded plainMint.config plainAsk oneEach roomy) (Call.start plainAsk)
  have hcall := call_refines_invoke plainMint.config plainAsk oneEach roomy plain_honest plain_fits
  exact ⟨turns, final, hrun, hcomplete, (hcall.2 turns final hrun hcomplete).2⟩

end Capcurl.Calls
