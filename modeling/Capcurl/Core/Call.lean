import Capcurl.Core.Duplex

/-!
# A call: `capcurl` beside one connection of the daemon

`mint` and `serve_connection` on the two ends of a message channel, and then the two programs of the
descriptor. The channel holds a bounded number of messages, and yields them in order and as they were
sent. The kernel has a socket pair for every mint.
-/

namespace Capcurl.Core

open Lib Http Policy

/-- What the client asks for. -/
structure Ask where
  method : Text
  target : Text
  headers : List Header
  body : Bytes

/-- A message as it is received. The number of a descriptor is the receiver's. -/
def Message.received : Message → Received
  | .arg value => ⟨.arg, .ok value, []⟩
  | .end_ => ⟨.end_, .ok [], []⟩
  | .error text => ⟨.error, .ok text, []⟩
  | .fds count => ⟨.fd, .ok [], List.range count⟩

/-! ## The client -/

/-- Where `capcurl` stands: the messages that `mint` has still to send, what it has heard of the
binding, the request on the descriptor, or why there is none. -/
inductive Caller where
  | sending (queue : List Message)
  | awaiting (bound : Bound)
  | calling (client : Client)
  | failed (e : CoreError)

def Caller.start (ask : Ask) : Caller := .sending [.arg ask.method, .arg ask.target, .end_]

/-- A turn of the loop of `mint`, on a message. -/
def Caller.receive (ask : Ask) (bound : Bound) (message : Received) : Caller :=
  match message.fieldType with
  | .arg =>
    match message.asStr with
    | .error e => .failed (.proto e)
    | .ok value =>
      match bound.argsSeen with
      | 0 => .awaiting { bound with method := value, argsSeen := 1 }
      | 1 => .awaiting { bound with target := value, argsSeen := 2 }
      | _ => .failed (.handshake (ascii "too many bound-request args"))
  | .fd =>
    match message.fds with
    | [_] => .calling (Client.start bound.method bound.target ask.headers ask.body)
    | fds =>
      .failed (.handshake (ascii "expected exactly one descriptor, got " ++ decimal fds.length))
  | .error =>
    match message.asStr with
    | .error e => .failed (.proto e)
    | .ok text => .failed (.refused text)
  | .unauthorized =>
    match message.asStr with
    | .error e => .failed (.proto e)
    | .ok text => .failed (.refused (ascii "authentication required: " ++ text))
  | other => .failed (.handshake (ascii "unexpected " ++ other.debug ++ ascii " message during mint"))

/-! ## The daemon -/

/-- Where `serve_connection` stands: the arguments it has read, the messages it has still to send
before it serves the descriptor or returns an error (`lost` if they cannot be sent), or the descriptor
it serves. -/
inductive Server where
  | reading (args : List Text)
  | granting (queue : List Message) (m : Mint)
  | denying (queue : List Message) (e lost : CoreError)
  | serving (m : Mint) (daemon : Daemon)
  | done (e : CoreError)

/-- The client is told, if it can be. -/
def Server.deny (e : CoreError) : Server := .denying [.error e.text] e e

/-- The descriptor is served as soon as it is sent. -/
def Server.grant (queue : List Message) (m : Mint) : Server :=
  match queue with
  | [] => .serving m (.readingHead [])
  | _ => .granting queue m

/-- What `serve_connection` does with a mint request. -/
def Server.resolve (config : Config) (method target : Text) : Server :=
  match config.grant.resolve config.parseUrl method target with
  | .error why => .denying [.error why.text] (.denied why) (.transport brokenPipe)
  | .ok (boundMethod, url) =>
    grant [.arg boundMethod, .arg (boundTargetOf config.grant target), .fds 1]
      ⟨config, boundMethod, boundTargetOf config.grant target, url⟩

/-- A turn of the loop of `read_mint_request`, on a message. -/
def Server.receive (config : Config) (args : List Text) (message : Received) : Server :=
  match message.fieldType with
  | .arg =>
    if args.length ≥ 2 then deny mintArity
    else match message.asStr with
      | .error e => deny (.proto e)
      | .ok value => .reading (args ++ [value])
  | .end_ =>
    match args with
    | [method, target] => resolve config method target
    | _ => deny mintArity
  | other =>
    deny (.handshake (ascii "unexpected " ++ other.debug ++ ascii " message during mint"))

/-! ## Both -/

/-- The messages and the bytes under way, and both programs. -/
structure Call where
  toServer : List Message
  toCaller : List Message
  caller : Caller
  server : Server
  up : Bytes
  down : Bytes

def Call.start (ask : Ask) : Call := ⟨[], [], Caller.start ask, .reading [], [], []⟩

/-- How many messages the channel holds each way. -/
structure Backlog where
  toServer : Nat
  toCaller : Nat
  toServer_pos : 0 < toServer
  toCaller_pos : 0 < toCaller

inductive Turn (config : Config) (ask : Ask) (backlog : Backlog) (cap : Capacity) : Call → Call → Prop where
  | callerSends (message : Message) (queue toServer toCaller : List Message) (server : Server)
    (up down : Bytes) (hroom : toServer.length < backlog.toServer) (hopen : ∀ e, server ≠ .done e) :
    Turn config ask backlog cap ⟨toServer, toCaller, .sending (message :: queue), server, up, down⟩
      ⟨toServer ++ [message], toCaller, .sending queue, server, up, down⟩
  | callerLost (message : Message) (queue toServer toCaller : List Message) (e : CoreError)
    (up down : Bytes) :
    Turn config ask backlog cap ⟨toServer, toCaller, .sending (message :: queue), .done e, up, down⟩
      ⟨toServer, toCaller, .failed (.transport brokenPipe), .done e, up, down⟩
  | callerSent (toServer toCaller : List Message) (server : Server) (up down : Bytes) :
    Turn config ask backlog cap ⟨toServer, toCaller, .sending [], server, up, down⟩
      ⟨toServer, toCaller, .awaiting ⟨ask.method, ask.target, 0⟩, server, up, down⟩
  | callerReceives (bound : Bound) (message : Message) (toServer toCaller : List Message)
    (server : Server) (up down : Bytes) :
    Turn config ask backlog cap ⟨toServer, message :: toCaller, .awaiting bound, server, up, down⟩
      ⟨toServer, toCaller, Caller.receive ask bound message.received, server, up, down⟩
  | callerEnds (bound : Bound) (toServer : List Message) (e : CoreError) (up down : Bytes) :
    Turn config ask backlog cap ⟨toServer, [], .awaiting bound, .done e, up, down⟩
      ⟨toServer, [], .failed (.handshake (ascii "daemon closed the channel")), .done e, up, down⟩
  | serverReceives (args : List Text) (message : Message) (toServer toCaller : List Message)
    (caller : Caller) (up down : Bytes) :
    Turn config ask backlog cap ⟨message :: toServer, toCaller, caller, .reading args, up, down⟩
      ⟨toServer, toCaller, caller, Server.receive config args message.received, up, down⟩
  | serverEnds (args : List Text) (toCaller : List Message) (e : CoreError) (up down : Bytes) :
    Turn config ask backlog cap ⟨[], toCaller, .failed e, .reading args, up, down⟩
      ⟨[], toCaller, .failed e, Server.deny (.handshake (ascii "client closed the channel")), up, down⟩
  | serverGrants (message : Message) (queue toServer toCaller : List Message) (m : Mint)
    (caller : Caller) (up down : Bytes) (hroom : toCaller.length < backlog.toCaller)
    (hopen : ∀ e, caller ≠ .failed e) :
    Turn config ask backlog cap ⟨toServer, toCaller, caller, .granting (message :: queue) m, up, down⟩
      ⟨toServer, toCaller ++ [message], caller, Server.grant queue m, up, down⟩
  | serverDenies (message : Message) (queue toServer toCaller : List Message) (e lost : CoreError)
    (caller : Caller) (up down : Bytes) (hroom : toCaller.length < backlog.toCaller)
    (hopen : ∀ e, caller ≠ .failed e) :
    Turn config ask backlog cap ⟨toServer, toCaller, caller, .denying (message :: queue) e lost, up, down⟩
      ⟨toServer, toCaller ++ [message], caller, .denying queue e lost, up, down⟩
  /-- The client is gone, and what was to be sent with it. -/
  | grantLost (message : Message) (queue toServer toCaller : List Message) (m : Mint) (e : CoreError)
    (up down : Bytes) :
    Turn config ask backlog cap ⟨toServer, toCaller, .failed e, .granting (message :: queue) m, up, down⟩
      ⟨toServer, toCaller, .failed e, .done (.transport brokenPipe), up, down⟩
  | denialLost (message : Message) (queue toServer toCaller : List Message) (e e' lost : CoreError)
    (up down : Bytes) :
    Turn config ask backlog cap
      ⟨toServer, toCaller, .failed e, .denying (message :: queue) e' lost, up, down⟩
      ⟨toServer, toCaller, .failed e, .done lost, up, down⟩
  | serverReturns (toServer toCaller : List Message) (e lost : CoreError) (caller : Caller)
    (up down : Bytes) :
    Turn config ask backlog cap ⟨toServer, toCaller, caller, .denying [] e lost, up, down⟩
      ⟨toServer, toCaller, caller, .done e, up, down⟩
  | exchanges (toServer toCaller : List Message) (m : Mint) (up down up' down' : Bytes)
    (client client' : Client) (daemon daemon' : Daemon)
    (hstep : Step m cap ⟨up, down, client, daemon⟩ ⟨up', down', client', daemon'⟩) :
    Turn config ask backlog cap ⟨toServer, toCaller, .calling client, .serving m daemon, up, down⟩
      ⟨toServer, toCaller, .calling client', .serving m daemon', up', down'⟩

end Capcurl.Core
