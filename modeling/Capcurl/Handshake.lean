import Capcurl.Session

/-! # The mint handshake, as both ends read it -/

namespace Capcurl.Handshake

open Lib Http Policy Capcurl.Core Session

/-! ## What the messages say -/

/-- The client's view after one more argument. -/
def noted (bound : Bound) (value : Text) : Bound :=
  match bound.argsSeen with
  | 0 => { bound with method := value, argsSeen := 1 }
  | _ => { bound with target := value, argsSeen := bound.argsSeen + 1 }

/-- What the message after the arguments says: a descriptor, or why there is none. -/
def Says (bound : Bound) (last : Received) : Except Text MintedCapability → Prop
  | .ok minted => ∃ fd, last.fieldType = .fd ∧ last.fds = [fd] ∧ minted = ⟨fd, bound.method, bound.target⟩
  | .error reason =>
    (last.fieldType = .error ∧ last.asStr = .ok reason) ∨
      ∃ text, last.fieldType = .unauthorized ∧ last.asStr = .ok text ∧
        reason = ascii "authentication required: " ++ text

/-- A reply begins the inbox: at most two arguments, and a message that ends it. -/
def Reply (bound : Bound) (inbox : List (Except Text Received)) (said : Except Text MintedCapability)
    (rest : List (Except Text Received)) : Prop :=
  ∃ (args : List (Text × List Nat)) (last : Received), bound.argsSeen + args.length ≤ 2 ∧ inbox = args.map argMessage ++ .ok last :: rest ∧
    Says ((args.map (·.1)).foldl noted bound) last said

/-- A request begins the inbox: two arguments, and the end. -/
def Request (method target : Text) (inbox rest : List (Except Text Received)) : Prop :=
  ∃ fds₁ fds₂ fds₃ text,
    inbox = .ok ⟨.arg, .ok method, fds₁⟩ :: .ok ⟨.arg, .ok target, fds₂⟩ :: .ok ⟨.end_, text, fds₃⟩ :: rest

/-- The end of `mint` at a reply. -/
def ended (t : Transport) : Except Text MintedCapability →
    EStateM.Result (Halt CoreError) Transport MintedCapability
  | .ok minted => .ok minted t
  | .error reason => .error (.err (.refused reason)) t

/-! ## The client -/

theorem says_ends (bound : Bound) (value : Text) (fds : List Nat) (said : Except Text MintedCapability) :
    ¬ Says bound ⟨.arg, .ok value, fds⟩ said := by
  intro h
  cases said with
  | ok minted =>
    obtain ⟨fd, htype, -⟩ := h
    cases htype
  | error reason =>
    rcases h with ⟨htype, -⟩ | ⟨text, htype, -⟩ <;> cases htype

theorem noted_seen (bound : Bound) (value : Text) : (noted bound value).argsSeen = bound.argsSeen + 1 := by
  unfold noted
  split
  · rename_i hzero
    rw [hzero]
  · rfl

theorem reply_arg (bound : Bound) (value : Text) (fds : List Nat) (inbox : List (Except Text Received))
    (said : Except Text MintedCapability) (rest : List (Except Text Received)) :
    Reply bound (.ok ⟨.arg, .ok value, fds⟩ :: inbox) said rest ↔
      bound.argsSeen < 2 ∧ Reply (noted bound value) inbox said rest := by
  constructor
  · rintro ⟨args, last, hroom, hinbox, hsaid⟩
    cases args with
    | nil =>
      rw [List.map_nil, List.nil_append, List.cons.injEq, Except.ok.injEq] at hinbox
      rw [← hinbox.1] at hsaid
      exact absurd hsaid (says_ends _ _ _ _)
    | cons arg args =>
      rw [List.length_cons] at hroom
      rw [List.map_cons, List.cons_append, List.cons.injEq, argMessage, Except.ok.injEq,
        Received.mk.injEq, Except.ok.injEq] at hinbox
      obtain ⟨⟨-, rfl, -⟩, htail⟩ := hinbox
      exact ⟨by omega, args, last, by rw [noted_seen]; omega, htail, hsaid⟩
  · rintro ⟨hlt, args, last, hroom, rfl, hsaid⟩
    rw [noted_seen] at hroom
    exact ⟨(value, fds) :: args, last, by rw [List.length_cons]; omega, rfl, hsaid⟩

theorem reply_last (bound : Bound) (message : Received) (inbox : List (Except Text Received))
    (said : Except Text MintedCapability) (rest : List (Except Text Received))
    (hseen : bound.argsSeen ≤ 2) (h : ∀ value, message.fieldType = .arg → message.asStr ≠ .ok value) :
    Reply bound (.ok message :: inbox) said rest ↔ inbox = rest ∧ Says bound message said := by
  constructor
  · rintro ⟨args, last, hroom, hinbox, hsaid⟩
    cases args with
    | nil =>
      rw [List.map_nil, List.nil_append, List.cons.injEq, Except.ok.injEq] at hinbox
      obtain ⟨rfl, rfl⟩ := hinbox
      exact ⟨rfl, hsaid⟩
    | cons arg args =>
      rw [List.map_cons, List.cons_append, List.cons.injEq, argMessage, Except.ok.injEq] at hinbox
      rw [hinbox.1] at h
      exact absurd rfl (h arg.1 rfl)
  · rintro ⟨rfl, hsaid⟩
    exact ⟨[], message, hseen, rfl, hsaid⟩

theorem ended_eq (t t' : Transport) (said said' : Except Text MintedCapability) :
    ended t said = ended t' said' ↔ said = said' ∧ t = t' := by
  cases said <;> cases said' <;> simp [ended]

theorem ended_ne (t t' : Transport) (e : CoreError) (said : Except Text MintedCapability)
    (h : ∀ reason, e ≠ .refused reason) : .error (.err e) t ≠ ended t' said := by
  cases said with
  | ok minted => exact nofun
  | error reason =>
    intro he
    cases he
    exact h reason rfl

theorem turn_said (bound : Bound) (message : Received) (t t' : Transport)
    (r : EStateM.Result (Halt CoreError) Transport MintedCapability) (what said : Except Text MintedCapability)
    (hturn : r = ended t what) (hsaid : ∀ said, Says bound message said ↔ said = what) :
    r = ended t' said ↔ Says bound message said ∧ t' = t := by
  rw [hturn, ended_eq, hsaid]
  exact ⟨fun ⟨h, h'⟩ => ⟨h.symm, h'.symm⟩, fun ⟨h, h'⟩ => ⟨h.symm, h'.symm⟩⟩

theorem turn_failed (bound : Bound) (message : Received) (t t' : Transport) (e : CoreError)
    (r : EStateM.Result (Halt CoreError) Transport MintedCapability) (said : Except Text MintedCapability)
    (hturn : r = .error (.err e) t) (he : ∀ reason, e ≠ .refused reason)
    (hsaid : ∀ said, ¬ Says bound message said) :
    r = ended t' said ↔ Says bound message said ∧ t' = t := by
  rw [hturn]
  exact ⟨fun h => absurd h (ended_ne t t' e said he), fun h => absurd h.1 (hsaid said)⟩

theorem readMintReply_arg (fuel : Nat) (bound : Bound) (value : Text) (fds : List Nat)
    (inbox : List (Except Text Received)) (errors : List (Option Text)) (sent : List Message)
    (hroom : bound.argsSeen < 2) :
    readMintReply (fuel + 1) bound ⟨.ok ⟨.arg, .ok value, fds⟩ :: inbox, errors, sent⟩ =
      readMintReply fuel (noted bound value) ⟨inbox, errors, sent⟩ := by
  obtain ⟨method, target, argsSeen⟩ := bound
  match argsSeen with
  | 0 => rfl
  | 1 => rfl

theorem readMintReply_last (fuel : Nat) (bound : Bound) (message : Received)
    (inbox : List (Except Text Received)) (errors : List (Option Text)) (sent : List Message) (t' : Transport)
    (said : Except Text MintedCapability)
    (h : ∀ value, message.fieldType = .arg → message.asStr ≠ .ok value) :
    readMintReply (fuel + 1) bound ⟨.ok message :: inbox, errors, sent⟩ = ended t' said ↔
      Says bound message said ∧ t' = ⟨inbox, errors, sent⟩ := by
  obtain ⟨fieldType, text, fds⟩ := message
  cases fieldType with
  | arg =>
    cases text with
    | ok value => exact absurd rfl (h value rfl)
    | error e =>
      refine turn_failed bound _ _ t' (.proto e) _ said rfl (fun _ => nofun) fun said hsaid => ?_
      cases said <;> simp [Says] at hsaid
  | end_ =>
    refine turn_failed bound _ _ t' _ _ said rfl (fun _ => nofun) fun said hsaid => ?_
    cases said <;> simp [Says] at hsaid
  | fd =>
    match fds with
    | [fd] =>
      refine turn_said bound _ _ t' _ (.ok ⟨fd, bound.method, bound.target⟩) said rfl fun said => ?_
      cases said <;> simp [Says]
    | [] =>
      refine turn_failed bound _ _ t' _ _ said rfl (fun _ => nofun) fun said hsaid => ?_
      cases said <;> simp [Says] at hsaid
    | fd :: fd' :: fds =>
      refine turn_failed bound _ _ t' _ _ said rfl (fun _ => nofun) fun said hsaid => ?_
      cases said <;> simp [Says] at hsaid
  | error =>
    cases text with
    | ok text =>
      refine turn_said bound _ _ t' _ (.error text) said rfl fun said => ?_
      cases said <;> simp [Says, eq_comm]
    | error e =>
      refine turn_failed bound _ _ t' (.proto e) _ said rfl (fun _ => nofun) fun said hsaid => ?_
      cases said <;> simp [Says] at hsaid
  | unauthorized =>
    cases text with
    | ok text =>
      refine turn_said bound _ _ t' _ (.error (ascii "authentication required: " ++ text)) said rfl
        fun said => ?_
      cases said <;> simp [Says]
    | error e =>
      refine turn_failed bound _ _ t' (.proto e) _ said rfl (fun _ => nofun) fun said hsaid => ?_
      cases said <;> simp [Says] at hsaid
  | other debug =>
    refine turn_failed bound _ _ t' _ _ said rfl (fun _ => nofun) fun said hsaid => ?_
    cases said <;> simp [Says] at hsaid

theorem reply_nil (bound : Bound) (said : Except Text MintedCapability)
    (rest : List (Except Text Received)) : ¬ Reply bound [] said rest := by
  rintro ⟨args, last, -, hinbox, -⟩
  cases args <;> cases hinbox

theorem reply_error (bound : Bound) (e : Text) (inbox : List (Except Text Received))
    (said : Except Text MintedCapability) (rest : List (Except Text Received)) :
    ¬ Reply bound (.error e :: inbox) said rest := by
  rintro ⟨args, last, -, hinbox, -⟩
  cases args <;> cases hinbox

theorem readMintReply_iff (fuel : Nat) (bound : Bound) (t t' : Transport) (hfuel : t.inbox.length < fuel)
    (hseen : bound.argsSeen ≤ 2) (said : Except Text MintedCapability) :
    readMintReply fuel bound t = ended t' said ↔
      ∃ rest, Reply bound t.inbox said rest ∧ t' = { t with inbox := rest } := by
  induction fuel generalizing bound t with
  | zero => omega
  | succ fuel ih =>
    obtain ⟨inbox, errors, sent⟩ := t
    cases inbox with
    | nil =>
      exact ⟨fun h => absurd h (ended_ne _ t' (.handshake (ascii "daemon closed the channel")) said
        fun _ => nofun), fun ⟨rest, h, _⟩ => absurd h (reply_nil bound said rest)⟩
    | cons message inbox =>
      cases message with
      | error e =>
        exact ⟨fun h => absurd h (ended_ne _ t' (.transport e) said fun _ => nofun),
          fun ⟨rest, h, _⟩ => absurd h (reply_error bound e inbox said rest)⟩
      | ok message =>
        by_cases harg : ∃ value, message.fieldType = .arg ∧ message.asStr = .ok value
        · obtain ⟨fieldType, text, fds⟩ := message
          obtain ⟨value, rfl, rfl⟩ := harg
          by_cases hroom : bound.argsSeen < 2
          · have hnoted : (noted bound value).argsSeen ≤ 2 := by
              rw [noted_seen bound value]
              omega
            rw [readMintReply_arg fuel bound value fds inbox errors sent hroom,
              ih (noted bound value) ⟨inbox, errors, sent⟩ (by simpa using hfuel) hnoted]
            simp only [reply_arg, hroom, true_and]
          · have hfull : bound.argsSeen = 2 := by omega
            have hturn : readMintReply (fuel + 1) bound ⟨.ok ⟨.arg, .ok value, fds⟩ :: inbox, errors, sent⟩ =
                .error (.err (.handshake (ascii "too many bound-request args"))) ⟨inbox, errors, sent⟩ := by
              obtain ⟨method, target, argsSeen⟩ := bound
              obtain rfl : argsSeen = 2 := hfull
              rfl
            rw [hturn]
            simp only [reply_arg, hroom, false_and, exists_false, iff_false]
            exact ended_ne _ _ _ _ fun _ => nofun
        · have hlast : ∀ value, message.fieldType = .arg → message.asStr ≠ .ok value :=
            fun value htype htext => harg ⟨value, htype, htext⟩
          simp only [readMintReply_last fuel bound message inbox errors sent t' said hlast,
            reply_last bound message inbox said _ hseen hlast]
          constructor
          · rintro ⟨hsaid, rfl⟩
            exact ⟨inbox, ⟨rfl, hsaid⟩, rfl⟩
          · rintro ⟨rest, ⟨rfl, hsaid⟩, rfl⟩
            exact ⟨hsaid, rfl⟩

/-- The sends of a mint go through. -/
def Sends (t : Transport) : Prop := ∀ e ∈ t.sendErrors.take 3, e = none

/-- The transport after the sends of a mint. -/
def asked (method target : Text) (t : Transport) : Transport where
  inbox := t.inbox
  sendErrors := t.sendErrors.drop 3
  sent := t.sent ++ [.arg method, .arg target, .end_]

theorem mint_sends (method target : Text) (t : Transport) :
    (Sends t ∧ mint method target t =
      readMintReply (t.inbox.length + 1) ⟨method, target, 0⟩ (asked method target t)) ∨
    ¬ Sends t ∧ ∃ e t', mint method target t = .error (.err (.transport e)) t' := by
  obtain ⟨inbox, errors, sent⟩ := t
  have hsent : sent ++ [.arg method] ++ [.arg target] ++ [.end_] =
      sent ++ [.arg method, .arg target, .end_] := by simp
  match errors with
  | [] | [none] | [none, none] | none :: none :: none :: errors =>
    refine .inl ⟨by simp [Sends], ?_⟩
    rw [asked, ← hsent]
    rfl
  | some e :: errors => exact .inr ⟨(fun h => Option.some_ne_none e (h (some e) (by simp))), e, _, rfl⟩
  | none :: some e :: errors => exact .inr ⟨(fun h => Option.some_ne_none e (h (some e) (by simp))), e, _, rfl⟩
  | none :: none :: some e :: errors => exact .inr ⟨(fun h => Option.some_ne_none e (h (some e) (by simp))), e, _, rfl⟩

/-! ## The daemon -/

theorem readMintRequest_iff (method target : Text) (t t' : Transport) :
    readMintRequest t = .ok (method, target) t' ↔
      ∃ rest, Request method target t.inbox rest ∧ t' = { t with inbox := rest } := by
  constructor
  · intro h
    unfold readMintRequest at h
    rw [run_bind_ok get _ t t t rfl] at h
    rcases readMintArgs_cases (t.inbox.length + 1) [] t (Nat.lt_succ_self _) with
      ⟨e, inbox, herror⟩ | ⟨taken, text, fds, rest, hinbox, hargs⟩
    · rw [run_bind_error _ _ _ _ _ herror] at h
      cases h
    · rw [run_bind_ok _ _ _ _ _ hargs] at h
      rcases taken with _ | ⟨⟨m, fds₁⟩, _ | ⟨⟨tgt, fds₂⟩, _ | ⟨third, others⟩⟩⟩
      · cases h
      · cases h
      · cases h
        exact ⟨rest, ⟨fds₁, fds₂, fds, text, hinbox⟩, rfl⟩
      · cases h
  · rintro ⟨rest, ⟨fds₁, fds₂, fds₃, text, hinbox⟩, rfl⟩
    obtain ⟨inbox, errors, sent⟩ := t
    obtain rfl : inbox = _ := hinbox
    rfl

/-- **The handshake, exactly**: with any peer, `mint` returns a descriptor, or the peer's refusal, just
when its sends go through and a reply that says so begins its inbox; `read_mint_request` returns a method
and a target just when a request for them begins its inbox. Neither takes a message more than that. -/
theorem handshake_exact (method target : Text) (t t' : Transport) :
    (∀ said, mint method target t = ended t' said ↔
      Sends t ∧ ∃ rest, Reply ⟨method, target, 0⟩ t.inbox said rest ∧
        t' = { asked method target t with inbox := rest }) ∧
    (readMintRequest t = .ok (method, target) t' ↔
      ∃ rest, Request method target t.inbox rest ∧ t' = { t with inbox := rest }) := by
  refine ⟨fun said => ?_, readMintRequest_iff method target t t'⟩
  rcases mint_sends method target t with ⟨hsends, hrun⟩ | ⟨hfails, e, t'', hrun⟩
  · have hreply := readMintReply_iff (t.inbox.length + 1) ⟨method, target, 0⟩ (asked method target t) t'
      (Nat.lt_succ_self _) (Nat.zero_le 2) said
    rw [hrun]
    exact ⟨fun h => ⟨hsends, hreply.mp h⟩, fun h => hreply.mpr h.2⟩
  · rw [hrun]
    exact ⟨fun h => absurd h (ended_ne _ _ _ _ fun _ => nofun), fun h => absurd h.1 hfails⟩

end Capcurl.Handshake
