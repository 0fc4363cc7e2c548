import Capcurl.Core.Call
import Capcurl.Session

/-! # Each program of a call, beside the other, is the program by itself -/

namespace Capcurl.Calls

open Lib Http Policy Capcurl.Core Session

/-! ## The client -/

/-- What the client does with a message, wherever it stands. -/
def hear (ask : Ask) (caller : Caller) (message : Received) : Caller :=
  match caller with
  | .awaiting bound => Caller.receive ask bound message
  | caller => caller

/-- What the client does with the end of the channel. -/
def callerEnded : Caller → Caller
  | .awaiting _ => .failed (.handshake (ascii "daemon closed the channel"))
  | caller => caller

/-- The client that a result of `mint` leaves: it goes on to the request, or reports its error. -/
def CalledAs (ask : Ask) (r : Except (Halt CoreError) MintedCapability) (caller : Caller) : Prop :=
  (∃ minted, r = .ok minted ∧
    caller = .calling (Client.start minted.method minted.target ask.headers ask.body)) ∨
  ∃ e, r = .error (.err e) ∧ caller = .failed e

theorem readMintReply_turn (ask : Ask) (fuel : Nat) (bound : Bound) (message : Received)
    (inbox : List (Except Text Received)) (errors : List (Option Text)) (sent : List Message) :
    (∃ bound', Caller.receive ask bound message = .awaiting bound' ∧
      readMintReply (fuel + 1) bound ⟨.ok message :: inbox, errors, sent⟩ =
        readMintReply fuel bound' ⟨inbox, errors, sent⟩) ∨
    ∃ r, CalledAs ask r (Caller.receive ask bound message) ∧
      result (readMintReply (fuel + 1) bound ⟨.ok message :: inbox, errors, sent⟩) = r := by
  obtain ⟨fieldType, text, fds⟩ := message
  cases fieldType with
  | arg =>
    cases text with
    | error e => exact .inr ⟨_, .inr ⟨_, rfl, rfl⟩, rfl⟩
    | ok value =>
      obtain ⟨method, target, argsSeen⟩ := bound
      match argsSeen with
      | 0 => exact .inl ⟨_, rfl, rfl⟩
      | 1 => exact .inl ⟨_, rfl, rfl⟩
      | _ + 2 => exact .inr ⟨_, .inr ⟨_, rfl, rfl⟩, rfl⟩
  | end_ => exact .inr ⟨_, .inr ⟨_, rfl, rfl⟩, rfl⟩
  | fd =>
    match fds with
    | [] => exact .inr ⟨_, .inr ⟨_, rfl, rfl⟩, rfl⟩
    | [fd] => exact .inr ⟨_, .inl ⟨⟨fd, bound.method, bound.target⟩, rfl, rfl⟩, rfl⟩
    | fd :: fd' :: fds => exact .inr ⟨_, .inr ⟨_, rfl, rfl⟩, rfl⟩
  | error =>
    cases text with
    | error e => exact .inr ⟨_, .inr ⟨_, rfl, rfl⟩, rfl⟩
    | ok text => exact .inr ⟨_, .inr ⟨_, rfl, rfl⟩, rfl⟩
  | unauthorized =>
    cases text with
    | error e => exact .inr ⟨_, .inr ⟨_, rfl, rfl⟩, rfl⟩
    | ok text => exact .inr ⟨_, .inr ⟨_, rfl, rfl⟩, rfl⟩
  | other debug => exact .inr ⟨_, .inr ⟨_, rfl, rfl⟩, rfl⟩

theorem calledAs_done (ask : Ask) (r : Except (Halt CoreError) MintedCapability) (caller : Caller)
    (h : CalledAs ask r caller) (messages : List Received) :
    callerEnded (messages.foldl (hear ask) caller) = caller := by
  have hstays : ∀ message, hear ask caller message = caller := by
    rcases h with ⟨minted, -, rfl⟩ | ⟨e, -, rfl⟩ <;> exact fun _ => rfl
  induction messages with
  | nil => rcases h with ⟨minted, -, rfl⟩ | ⟨e, -, rfl⟩ <;> rfl
  | cons message messages ih => rw [List.foldl_cons, hstays, ih]

/-- The client beside a daemon is `mint` by itself: after any messages, it is where that leaves it, or
it would be at the end of the channel. -/
theorem caller_after (ask : Ask) (messages : List Received) (fuel : Nat) (bound : Bound)
    (errors : List (Option Text)) (sent : List Message) (hfuel : messages.length < fuel) :
    CalledAs ask (result (readMintReply fuel bound ⟨messages.map .ok, errors, sent⟩))
      (callerEnded (messages.foldl (hear ask) (.awaiting bound))) := by
  induction messages generalizing fuel bound with
  | nil =>
    obtain ⟨fuel, rfl⟩ := Nat.exists_eq_succ_of_ne_zero (Nat.pos_iff_ne_zero.mp hfuel)
    exact .inr ⟨_, rfl, rfl⟩
  | cons message messages ih =>
    obtain ⟨fuel, rfl⟩ := Nat.exists_eq_succ_of_ne_zero (Nat.pos_iff_ne_zero.mp (Nat.zero_lt_of_lt hfuel))
    rw [List.map_cons, List.foldl_cons]
    rcases readMintReply_turn ask fuel bound message (messages.map .ok) errors sent with
      ⟨bound', hreceive, hturn⟩ | ⟨r, hcalled, hresult⟩
    · rw [hturn, hear, hreceive]
      exact ih fuel bound' (by simpa using hfuel)
    · rw [hresult, hear, calledAs_done ask r _ hcalled]
      exact hcalled

theorem mint_after (ask : Ask) (messages : List Received) (sent : List Message) :
    CalledAs ask (result (mint ask.method ask.target ⟨messages.map .ok, [], sent⟩))
      (callerEnded (messages.foldl (hear ask) (.awaiting ⟨ask.method, ask.target, 0⟩))) := by
  have hmint : mint ask.method ask.target ⟨messages.map .ok, [], sent⟩ =
      readMintReply ((messages.map Except.ok).length + 1) ⟨ask.method, ask.target, 0⟩
        ⟨messages.map .ok, [], sent ++ [.arg ask.method] ++ [.arg ask.target] ++ [.end_]⟩ := rfl
  rw [hmint]
  apply caller_after
  rw [List.length_map]
  exact Nat.lt_succ_self _

/-! ## The daemon -/

/-- What the daemon does with a message, wherever it stands. -/
def attend (config : Config) (server : Server) (message : Received) : Server :=
  match server with
  | .reading args => Server.receive config args message
  | server => server

/-- What the daemon does with the end of the channel. -/
def serverEnded : Server → Server
  | .reading _ => Server.deny (.handshake (ascii "client closed the channel"))
  | server => server

/-- The daemon that `serve_connection` leaves: it tells the client why not, or serves a descriptor. -/
def ServedTo (config : Config) (w : World) (r : EStateM.Result (Halt CoreError) World Unit)
    (server : Server) : Prop :=
  (∃ text e lost t, server = .denying [.error text] e lost ∧
    t.sent = w.transport.sent ++ [.error text] ∧ r = .error (.err e) { w with transport := t }) ∨
  ∃ m t, server = .granting [.arg m.boundMethod, .arg m.boundTarget, .fds 1] m ∧ m.config = config ∧
    t.sent = w.transport.sent ∧
    r = serveMinted config m.boundMethod m.boundTarget m.url { w with transport := t }

/-- What the daemon makes of the arguments before an `End`. -/
def requested (config : Config) (args : List Text) : Server :=
  match args with
  | [method, target] => Server.resolve config method target
  | _ => Server.deny mintArity

section Server

variable (config : Config)

theorem readMintArgs_turn (fuel : Nat) (args : List Text) (message : Received)
    (inbox : List (Except Text Received)) (errors : List (Option Text)) (sent : List Message) :
    (∃ args', Server.receive config args message = .reading args' ∧
      readMintArgs (fuel + 1) args ⟨.ok message :: inbox, errors, sent⟩ =
        readMintArgs fuel args' ⟨inbox, errors, sent⟩) ∨
    (Server.receive config args message = requested config args ∧
      readMintArgs (fuel + 1) args ⟨.ok message :: inbox, errors, sent⟩ =
        .ok args ⟨inbox, errors, sent⟩) ∨
    ∃ e, Server.receive config args message = Server.deny e ∧
      readMintArgs (fuel + 1) args ⟨.ok message :: inbox, errors, sent⟩ =
        .error (.err e) ⟨inbox, errors, sent⟩ := by
  obtain ⟨fieldType, text, fds⟩ := message
  cases fieldType with
  | arg =>
    have hturn : readMintArgs (fuel + 1) args ⟨.ok ⟨.arg, text, fds⟩ :: inbox, errors, sent⟩ =
        (do
          if args.length ≥ 2 then throw (.err mintArity)
          let value ← asStr ⟨.arg, text, fds⟩
          readMintArgs fuel (args ++ [value]) : TransportM (List Text)) ⟨inbox, errors, sent⟩ := rfl
    rw [hturn]
    unfold Server.receive
    by_cases hfull : args.length ≥ 2
    · simp only [if_pos hfull]
      exact .inr (.inr ⟨mintArity, rfl, rfl⟩)
    · simp only [if_neg hfull]
      cases text with
      | error e => exact .inr (.inr ⟨.proto e, rfl, rfl⟩)
      | ok value => exact .inl ⟨args ++ [value], rfl, rfl⟩
  | end_ => exact .inr (.inl ⟨rfl, rfl⟩)
  | fd => exact .inr (.inr ⟨_, rfl, rfl⟩)
  | error => exact .inr (.inr ⟨_, rfl, rfl⟩)
  | unauthorized => exact .inr (.inr ⟨_, rfl, rfl⟩)
  | other debug => exact .inr (.inr ⟨_, rfl, rfl⟩)

theorem attend_stays (server : Server) (h : ∀ args, server ≠ .reading args) (messages : List Received) :
    serverEnded (messages.foldl (attend config) server) = server := by
  have hstays : ∀ message, attend config server message = server := by
    intro message
    cases server with
    | reading args => exact absurd rfl (h args)
    | granting queue m => rfl
    | denying queue e lost => rfl
    | serving m daemon => rfl
    | done e => rfl
  induction messages with
  | nil =>
    cases server with
    | reading args => exact absurd rfl (h args)
    | granting queue m => rfl
    | denying queue e lost => rfl
    | serving m daemon => rfl
    | done e => rfl
  | cons message messages ih => rw [List.foldl_cons, hstays, ih]

theorem resolve_moves (method target : Text) (args : List Text) :
    Server.resolve config method target ≠ .reading args := by
  unfold Server.resolve
  split <;> exact nofun

theorem requested_moves (args args' : List Text) : requested config args ≠ .reading args' := by
  unfold requested
  split
  · exact resolve_moves config _ _ args'
  · exact nofun

theorem args_after (messages : List Received) (fuel : Nat) (args : List Text)
    (errors : List (Option Text)) (sent : List Message) (hfuel : messages.length < fuel) :
    (∃ taken rest, readMintArgs fuel args ⟨messages.map .ok, errors, sent⟩ =
        .ok taken ⟨rest, errors, sent⟩ ∧
      serverEnded (messages.foldl (attend config) (.reading args)) = requested config taken) ∨
    ∃ e rest, readMintArgs fuel args ⟨messages.map .ok, errors, sent⟩ =
        .error (.err e) ⟨rest, errors, sent⟩ ∧
      serverEnded (messages.foldl (attend config) (.reading args)) = Server.deny e := by
  induction messages generalizing fuel args with
  | nil =>
    obtain ⟨fuel, rfl⟩ := Nat.exists_eq_succ_of_ne_zero (Nat.pos_iff_ne_zero.mp hfuel)
    exact .inr ⟨_, [], rfl, rfl⟩
  | cons message messages ih =>
    obtain ⟨fuel, rfl⟩ := Nat.exists_eq_succ_of_ne_zero (Nat.pos_iff_ne_zero.mp (Nat.zero_lt_of_lt hfuel))
    rw [List.map_cons, List.foldl_cons]
    rcases readMintArgs_turn config fuel args message (messages.map .ok) errors sent with
      ⟨args', hreceive, hturn⟩ | ⟨hreceive, hturn⟩ | ⟨e, hreceive, hturn⟩
    · rw [hturn, attend, hreceive]
      exact ih fuel args' (by simpa using hfuel)
    · rw [hturn, attend, hreceive, attend_stays config _ (requested_moves config args)]
      exact .inl ⟨args, _, rfl, rfl⟩
    · have hmoves : ∀ args', Server.deny e ≠ .reading args' := fun args' => nofun
      rw [hturn, attend, hreceive, attend_stays config _ hmoves]
      exact .inr ⟨e, _, rfl, rfl⟩

theorem request_after (t : Transport) (messages : List Received) (hinbox : t.inbox = messages.map .ok) :
    (∃ method target rest, readMintRequest t = .ok (method, target) { t with inbox := rest } ∧
      serverEnded (messages.foldl (attend config) (.reading [])) =
        Server.resolve config method target) ∨
    ∃ e rest, readMintRequest t = .error (.err e) { t with inbox := rest } ∧
      serverEnded (messages.foldl (attend config) (.reading [])) = Server.deny e := by
  have hfuel : messages.length < t.inbox.length + 1 := by
    rw [hinbox, List.length_map]
    exact Nat.lt_succ_self _
  have hargs := args_after config messages (t.inbox.length + 1) [] t.sendErrors t.sent hfuel
  rw [← hinbox] at hargs
  unfold readMintRequest
  rw [run_bind_ok get _ t t t rfl]
  rcases hargs with ⟨taken, rest, hrun, hfold⟩ | ⟨e, rest, hrun, hfold⟩
  · rw [run_bind_ok _ _ _ _ _ hrun, hfold]
    rcases taken with _ | ⟨method, _ | ⟨target, _ | ⟨third, others⟩⟩⟩
    · exact .inr ⟨mintArity, rest, rfl, rfl⟩
    · exact .inr ⟨mintArity, rest, rfl, rfl⟩
    · exact .inl ⟨method, target, rest, rfl, rfl⟩
    · exact .inr ⟨mintArity, rest, rfl, rfl⟩
  · rw [run_bind_error _ _ _ _ _ hrun, hfold]
    exact .inr ⟨e, rest, rfl, rfl⟩

/-- The daemon beside a client is `serve_connection` by itself: after any messages, it is where that
leaves it, or it would be at the end of the channel. -/
theorem server_after (w : World) (messages : List Received)
    (hinbox : w.transport.inbox = messages.map .ok) (herrors : w.transport.sendErrors = []) :
    ServedTo config w (serveConnection config w)
      (serverEnded (messages.foldl (attend config) (.reading []))) := by
  obtain ⟨⟨inbox, errors, sent⟩, socketpairError, intoStreamError, stream, fetches⟩ := w
  obtain rfl : errors = [] := herrors
  unfold serveConnection
  rcases request_after config ⟨inbox, [], sent⟩ messages hinbox with
    ⟨method, target, rest, hrun, hfold⟩ | ⟨e, rest, hrun, hfold⟩
  · rw [run_bind_ok _ _ _ _ _ (attempt_ok _ _ _ _ (onTransport_ok _ _ _ _ hrun)), hfold]
    unfold Server.resolve
    simp only
    cases config.grant.resolve config.parseUrl method target with
    | error why => exact .inl ⟨_, _, _, ⟨rest, [], sent ++ [.error why.text]⟩, rfl, rfl, rfl⟩
    | ok bound =>
      exact .inr ⟨⟨config, bound.1, boundTargetOf config.grant target, bound.2⟩, ⟨rest, [], sent⟩, rfl, rfl,
        rfl, rfl⟩
  · rw [run_bind_ok _ _ _ _ _ (attempt_err _ _ _ _ (onTransport_error _ _ _ _ hrun)), hfold]
    exact .inl ⟨_, _, _, ⟨rest, [], sent ++ [.error e.text]⟩, rfl, rfl, rfl⟩

end Server

end Capcurl.Calls
