import Capcurl.Delivery
import Capcurl.Segmentation

/-! # The stages of a request that is answered once all of it is there -/

namespace Capcurl.Delivery

open Lib Http Policy Capcurl.Core

/-! ## Where a program stands, by the bytes it has read -/

theorem client_body_waits (status : UInt16) (reason : Text) (headers : List Header) (length : Nat)
    (buf : Bytes) (h : (Client.resumeBody status reason headers length buf).isReading = true) :
    Client.resumeBody status reason headers length buf =
      .readingBody status reason headers length buf := by
  unfold Client.resumeBody lengthCheck at h ⊢
  by_cases hshort : buf.length < length
  · simp only [if_pos hshort]
  · simp only [if_neg hshort] at h
    cases h

theorem client_head_waits (buf : Bytes) (hend : findHeadEnd buf = none)
    (h : (Client.resumeHead buf).isReading = true) : Client.resumeHead buf = .readingHead buf := by
  unfold Client.resumeHead responseHeadCheck at h ⊢
  rw [hend] at h ⊢
  by_cases hlarge : buf.length > maxHeadLen
  · simp only [if_pos hlarge] at h
    cases h
  · simp only [if_neg hlarge]

theorem client_read_append (q part : Bytes) (h : (Client.resumeHead q).isReading = true) :
    (Client.resumeHead q).read part = Client.resumeHead (q ++ part) := by
  cases hend : findHeadEnd q with
  | none =>
    rw [client_head_waits q hend h]
    rfl
  | some stop =>
    obtain ⟨hwhole, hle⟩ := Segmentation.findHeadEnd_append q part stop hend
    unfold Client.resumeHead responseHeadCheck at h ⊢
    rw [hend] at h ⊢
    rw [hwhole]
    simp only [Client.parsed, List.take_append_of_le_length hle,
      List.drop_append_of_le_length hle] at h ⊢
    cases hparse : parseStatusAndHeaders (q.take stop) with
    | error e =>
      rw [hparse] at h
      cases h
    | ok parsed =>
      rw [hparse] at h
      simp only at h ⊢
      cases hlength : declaredLength parsed.2.2 with
      | error e =>
        rw [hlength] at h
        cases h
      | ok length =>
        rw [hlength] at h
        simp only at h ⊢
        rw [client_body_waits _ _ _ _ _ h]
        rfl

section Daemon

variable (m : Mint)

theorem daemon_body_waits (head : RequestHead) (buf : Bytes)
    (h : (Daemon.resumeBody m head buf).isReading = true) :
    Daemon.resumeBody m head buf = .readingBody head buf := by
  unfold Daemon.resumeBody at h ⊢
  cases hcheck : bodyCheck m.config.profile head.framing m.config.grant.maxRequestBody buf with
  | none => rfl
  | some verdict =>
    rw [hcheck] at h
    cases verdict with
    | error e =>
      have hquiet := fail_not_reading e
      simp only [hquiet] at h
      cases h
    | ok body =>
      have hquiet := relay_not_reading m head body
      simp only [hquiet] at h
      cases h

theorem daemon_head_waits (buf : Bytes) (hend : findHeadEnd buf = none)
    (h : (Daemon.resumeHead m buf).isReading = true) : Daemon.resumeHead m buf = .readingHead buf := by
  unfold Daemon.resumeHead headCheck at h ⊢
  rw [hend] at h ⊢
  by_cases hlarge : buf.length > maxHeadLen
  · simp only [if_pos hlarge] at h
    cases h
  · simp only [if_neg hlarge]

theorem daemon_read_append (q part : Bytes) (h : (Daemon.resumeHead m q).isReading = true) :
    (Daemon.resumeHead m q).read m part = Daemon.resumeHead m (q ++ part) := by
  cases hend : findHeadEnd q with
  | none =>
    rw [daemon_head_waits m q hend h]
    rfl
  | some stop =>
    obtain ⟨hwhole, hle⟩ := Segmentation.findHeadEnd_append q part stop hend
    unfold Daemon.resumeHead headCheck at h ⊢
    rw [hend] at h ⊢
    rw [hwhole]
    simp only [List.take_append_of_le_length hle, List.drop_append_of_le_length hle] at h ⊢
    cases hparse : RequestHead.parse (q.take stop) with
    | error e =>
      rw [hparse] at h
      cases h
    | ok head =>
      rw [hparse] at h
      simp only [Daemon.parsed] at h ⊢
      by_cases hbound : (!eqIgnoreCase head.method m.boundMethod || head.target != m.boundTarget) = true
      · simp only [if_pos hbound] at h
        cases h
      · simp only [if_neg hbound] at h ⊢
        rw [daemon_body_waits m _ _ h]
        rfl

end Daemon

/-! ## Stages -/

/-- The daemon reads on until it has all of the request, and then answers it. -/
structure Answers (m : Mint) (request answer : Bytes) : Prop where
  nonempty : request ≠ []
  reads : ∀ q x, q ++ x = request → x ≠ [] → (Daemon.resumeHead m q).isReading = true
  answers : ∃ outcome pending, Daemon.resumeHead m request = .writing outcome pending ∧
    pending.flatten = answer

/-- The client that has written its request, and has read `seen` of the answer. -/
def Waiting (client : Client) (seen : Bytes) : Prop :=
  (∃ pending, client = .writing pending ∧ pending.flatten = [] ∧ seen = []) ∨
    client.isReading = true ∧ client = Client.resumeHead seen

/-- The daemon that has `rest` of the answer still to write. -/
def Writes (daemon : Daemon) (rest : Bytes) : Prop :=
  (∃ outcome pending, daemon = .writing outcome pending ∧ pending.flatten = rest) ∨
    (daemon = .shut ∨ daemon = .closed) ∧ rest = []

inductive Stage (m : Mint) (request answer : Bytes) (d : Duplex) : Prop where
  | asking (got : Bytes) (hdown : d.down = [])
    (hclient : (∃ pending, d.client = .writing pending) ∨ d.client = .readingHead [])
    (hdaemon : d.daemon = Daemon.resumeHead m got) (hgot : got ++ (d.up ++ d.client.left) = request)
    (hmore : d.up ++ d.client.left ≠ [])
  | answering (seen rest : Bytes) (hup : d.up = []) (hclient : Waiting d.client seen)
    (hdaemon : Writes d.daemon rest) (hall : seen ++ (d.down ++ rest) = answer)
  /-- The client has returned what it makes of `seen`, and of the end of the stream behind that. -/
  | answered (r : Except (Halt CoreError) Response) (seen x : Bytes) (hup : d.up = [])
    (hclient : d.client = .returned r) (hquiet : d.daemon.isReading = false)
    (hall : seen ++ (d.down ++ x) = answer) (hr : (Client.resumeHead seen).ended = .returned r)
    (hwhole : Client.resumeHead seen = .returned r ∨ d.down ++ x = [])

theorem writes_quiet (daemon : Daemon) (rest : Bytes) (h : Writes daemon rest) :
    daemon.isReading = false := by
  rcases h with ⟨outcome, pending, rfl, -⟩ | ⟨rfl | rfl, -⟩ <;> rfl

theorem waiting_reading (client : Client) (seen : Bytes) (h : Waiting client seen)
    (hreading : client.isReading = true) : client = Client.resumeHead seen := by
  rcases h with ⟨pending, rfl, -⟩ | ⟨-, hseen⟩
  · cases hreading
  · exact hseen

theorem waiting_writing (pending : List Bytes) (seen : Bytes) (h : Waiting (.writing pending) seen) :
    pending.flatten = [] ∧ seen = [] := by
  rcases h with ⟨pending', hpending, hflat, hseen⟩ | ⟨hreading, -⟩
  · rw [Client.writing.inj hpending]
    exact ⟨hflat, hseen⟩
  · cases hreading

theorem waiting_open (client : Client) (seen : Bytes) (h : Waiting client seen)
    (r : Except (Halt CoreError) Response) : client ≠ .returned r := by
  rintro rfl
  rcases h with ⟨pending, hpending, -⟩ | ⟨hreading, -⟩
  · cases hpending
  · cases hreading

theorem returned_or_reading (q : Bytes) :
    (Client.resumeHead q).isReading = true ∨ ∃ r, Client.resumeHead q = .returned r := by
  by_cases hq : q = []
  · rw [hq]
    exact .inl rfl
  · have hafter := clientAfter_cases [q] (by simpa using hq)
    exact hafter

section Stages

variable (m : Mint) (cap : Capacity) (request answer : Bytes)

theorem stage_start (method target : Text) (headers : List Header) (body : Bytes)
    (hrequest : requestHead method target headers body.length ++ body = request) (hne : request ≠ []) :
    Stage m request answer (Duplex.start method target headers body) := by
  have hleft : (Client.start method target headers body).left = request := by
    simpa [Client.start, Client.left] using hrequest
  refine .asking [] rfl (.inl ⟨_, rfl⟩) rfl ?_ ?_
  · exact hleft
  · exact ne_of_eq_of_ne hleft hne

variable (d d' : Duplex)

theorem asking_step (hanswers : Answers m request answer) (got : Bytes) (hdown : d.down = [])
    (hclient : (∃ pending, d.client = .writing pending) ∨ d.client = .readingHead [])
    (hdaemon : d.daemon = Daemon.resumeHead m got) (hgot : got ++ (d.up ++ d.client.left) = request)
    (hmore : d.up ++ d.client.left ≠ []) (hstep : Step m cap d d') : Stage m request answer d' := by
  have hreads := hanswers.reads got _ hgot hmore
  rw [← hdaemon] at hreads
  have hopen : ∀ r, d.client ≠ .returned r := by
    intro r hr
    rw [hr] at hclient
    rcases hclient with ⟨pending, h⟩ | h <;> cases h
  cases hstep with
  | clientWrites up down part more rest daemon hpart hroom hopen =>
    refine .asking got hdown (.inl ⟨_, rfl⟩) hdaemon ?_ ?_
    · rw [← hgot]
      simp [Client.left]
    · simp [hpart]
  | clientWrote up down rest daemon => exact .asking got hdown (.inl ⟨_, rfl⟩) hdaemon hgot hmore
  | clientTurns up down daemon => exact .asking got hdown (.inr rfl) hdaemon hgot hmore
  | clientFails => cases hreads
  | clientReads up part down client daemon hreading hpart hmax =>
    exact absurd (List.append_eq_nil_iff.mp hdown).1 hpart
  | clientEnds up client daemon hreading hgone =>
    rcases hgone with rfl | rfl <;> cases hreads
  | daemonReads part up down client daemon hreading hpart hmax =>
    simp only at hdown hclient hdaemon hgot hreads
    have hread : daemon.read m part = Daemon.resumeHead m (got ++ part) := by
      rw [hdaemon] at hreads ⊢
      exact daemon_read_append m got part hreads
    have hnext : got ++ part ++ (up ++ client.left) = request := by
      rw [← hgot]
      simp only [List.append_assoc]
    by_cases hmore : up ++ client.left = []
    · -- that was the last of the request
      obtain ⟨rfl, hleft⟩ := List.append_eq_nil_iff.mp hmore
      obtain ⟨outcome, pending, hanswer, hpending⟩ := hanswers.answers
      rw [hmore, List.append_nil] at hnext
      refine .answering [] answer rfl ?_ (.inl ⟨outcome, pending, ?_, hpending⟩) ?_
      · rcases hclient with ⟨pending, rfl⟩ | rfl
        · exact .inl ⟨pending, rfl, hleft, rfl⟩
        · exact .inr ⟨rfl, rfl⟩
      · simp only [hread, hnext, hanswer]
      · simp only [hdown, List.nil_append]
    · exact .asking (got ++ part) hdown hclient hread hnext hmore
  | daemonEnds down r => exact absurd rfl (hopen r)
  | daemonWrites => cases hreads
  | daemonWrote => cases hreads
  | daemonFails => cases hreads
  | daemonShuts => cases hreads
  | daemonCloses => cases hreads

theorem answering_step (seen rest : Bytes) (hup : d.up = []) (hclient : Waiting d.client seen)
    (hdaemon : Writes d.daemon rest) (hall : seen ++ (d.down ++ rest) = answer)
    (hstep : Step m cap d d') : Stage m request answer d' := by
  have hquiet := writes_quiet _ rest hdaemon
  have hopen := waiting_open _ seen hclient
  cases hstep with
  | clientWrites up down part more rest' daemon hpart hroom hopen =>
    have hnone := (waiting_writing _ seen hclient).1
    simp [hpart] at hnone
  | clientWrote up down rest' daemon =>
    obtain ⟨hflat, hseen⟩ := waiting_writing _ seen hclient
    exact .answering seen rest hup (.inl ⟨rest', rfl, hflat, hseen⟩) hdaemon hall
  | clientTurns up down daemon =>
    obtain ⟨-, rfl⟩ := waiting_writing _ seen hclient
    exact .answering [] rest hup (.inr ⟨rfl, rfl⟩) hdaemon hall
  | clientFails up down buf rest' hbuf =>
    have hnone := (waiting_writing _ seen hclient).1
    simp [hbuf] at hnone
  | clientReads up part down client daemon hreading hpart hmax =>
    have hseen := waiting_reading client seen hclient hreading
    have hnext : seen ++ part ++ (down ++ rest) = answer := by
      rw [← hall]
      simp only [List.append_assoc]
    have hread : client.read part = Client.resumeHead (seen ++ part) := by
      rw [hseen] at hreading ⊢
      exact client_read_append seen part hreading
    rcases returned_or_reading (seen ++ part) with hreads | ⟨r, hr⟩
    · refine .answering (seen ++ part) rest hup (.inr ⟨?_, hread⟩) hdaemon hnext
      simp only [hread, hreads]
    · refine .answered r (seen ++ part) rest hup (hread.trans hr) hquiet hnext ?_ (.inl hr)
      rw [hr]
      rfl
  | clientEnds up client daemon hreading hgone =>
    have hseen := waiting_reading client seen hclient hreading
    have hrest : rest = [] := by
      rcases hdaemon with ⟨outcome, pending, hwriting, -⟩ | ⟨-, hrest⟩
      · rcases hgone with rfl | rfl <;> cases hwriting
      · exact hrest
    obtain ⟨r, hr⟩ : ∃ r, client.ended = .returned r := by
      cases client with
      | writing pending => cases hreading
      | readingHead buf => exact ⟨_, rfl⟩
      | readingBody status reason headers length buf => exact ⟨_, rfl⟩
      | returned r => cases hreading
    refine .answered r seen [] hup hr hquiet ?_ ?_ (.inr rfl)
    · rw [← hall, hrest]
    · rw [← hseen]
      exact hr
  | daemonReads part up down client daemon hreading hpart hmax =>
    exact absurd (List.append_eq_nil_iff.mp hup).1 hpart
  | daemonEnds down r daemon hreading => exact absurd rfl (hopen r)
  | daemonWrites up down part more rest' client outcome hpart hroom hopen =>
    rcases hdaemon with ⟨outcome', pending', hwriting, hrest⟩ | ⟨hgone | hgone, -⟩
    · cases hwriting
      refine .answering seen (more ++ rest'.flatten) hup hclient (.inl ⟨outcome, _, rfl, rfl⟩) ?_
      rw [← hall, ← hrest]
      simp
    · cases hgone
    · cases hgone
  | daemonWrote up down rest' client outcome =>
    rcases hdaemon with ⟨outcome', pending', hwriting, hrest⟩ | ⟨hgone | hgone, -⟩
    · cases hwriting
      exact .answering seen rest hup hclient (.inl ⟨outcome, rest', rfl, hrest⟩) hall
    · cases hgone
    · cases hgone
  | daemonFails up down buf rest' r => exact absurd rfl (hopen r)
  | daemonShuts up down client outcome =>
    rcases hdaemon with ⟨outcome', pending', hwriting, hrest⟩ | ⟨hgone | hgone, -⟩
    · cases hwriting
      exact .answering seen rest hup hclient (.inr ⟨.inl rfl, hrest.symm⟩) hall
    · cases hgone
    · cases hgone
  | daemonCloses up down client =>
    rcases hdaemon with ⟨outcome', pending', hwriting, -⟩ | ⟨-, hrest⟩
    · cases hwriting
    · exact .answering seen rest hup hclient (.inr ⟨.inr rfl, hrest⟩) hall

theorem settled_step (r : Except (Halt CoreError) Response) (hclient : d.client = .returned r)
    (hquiet : d.daemon.isReading = false) (hstep : Step m cap d d') :
    d'.up = d.up ∧ d'.down = d.down ∧ d'.daemon.isReading = false := by
  cases hstep with
  | clientWrites => cases hclient
  | clientWrote => cases hclient
  | clientTurns => cases hclient
  | clientFails => cases hclient
  | clientReads up part down client daemon hreading hpart hmax =>
    obtain rfl : client = .returned r := hclient
    cases hreading
  | clientEnds up client daemon hreading hgone =>
    obtain rfl : client = .returned r := hclient
    cases hreading
  | daemonReads part up down client daemon hreading hpart hmax => cases hreading.symm.trans hquiet
  | daemonEnds down r daemon hreading => cases hreading.symm.trans hquiet
  | daemonWrites up down part more rest client outcome hpart hroom hopen => exact absurd hclient (hopen r)
  | daemonWrote => exact ⟨rfl, rfl, rfl⟩
  | daemonFails => exact ⟨rfl, rfl, rfl⟩
  | daemonShuts => exact ⟨rfl, rfl, rfl⟩
  | daemonCloses => exact ⟨rfl, rfl, rfl⟩

theorem stage_step (hanswers : Answers m request answer) (h : Stage m request answer d)
    (hstep : Step m cap d d') : Stage m request answer d' := by
  cases h with
  | asking got hdown hclient hdaemon hgot hmore =>
    exact asking_step m cap request answer d d' hanswers got hdown hclient hdaemon hgot hmore hstep
  | answering seen rest hup hclient hdaemon hall =>
    exact answering_step m cap request answer d d' seen rest hup hclient hdaemon hall hstep
  | answered r seen x hup hclient hquiet hall hr hwhole =>
    obtain ⟨hup', hdown', hquiet'⟩ := settled_step m cap d d' r hclient hquiet hstep
    have hclient' := returned_step m cap d d' r hclient hstep
    rw [← hdown'] at hall hwhole
    exact .answered r seen x (hup'.trans hup) (hclient'.trans hclient) hquiet' hall hr hwhole

theorem stage_reading (hanswers : Answers m request answer) (h : Stage m request answer d)
    (hreading : d.client.isReading = true) :
    d.down = [] ∧ d.daemon.isReading = true ∨
      ∃ seen rest, d.client = Client.resumeHead seen ∧ Writes d.daemon rest ∧
        seen ++ (d.down ++ rest) = answer := by
  cases h with
  | asking got hdown hclient hdaemon hgot hmore =>
    refine .inl ⟨hdown, ?_⟩
    rw [hdaemon]
    exact hanswers.reads got _ hgot hmore
  | answering seen rest hup hclient hdaemon hall =>
    exact .inr ⟨seen, rest, waiting_reading _ seen hclient hreading, hdaemon, hall⟩
  | answered r seen x hup hclient =>
    rw [hclient] at hreading
    cases hreading

theorem stage_writing (hanswers : Answers m request answer) (h : Stage m request answer d)
    (pending : List Bytes) (hclient : d.client = .writing pending) (hleft : pending.flatten ≠ []) :
    d.daemon ≠ .closed := by
  intro hclosed
  cases h with
  | asking got hdown _ hdaemon hgot hmore =>
    have hreads := hanswers.reads got _ hgot hmore
    rw [← hdaemon, hclosed] at hreads
    cases hreads
  | answering seen rest hup hwaiting hdaemon hall =>
    rw [hclient] at hwaiting
    exact hleft (waiting_writing pending seen hwaiting).1
  | answered r seen x hup hreturned =>
    rw [hclient] at hreturned
    cases hreturned

theorem stage_stuck (hanswers : Answers m request answer) (h : Stage m request answer d)
    (hstuck : Stuck (Step m cap) d) :
    ∃ r seen x, d = ⟨[], d.down, .returned r, .closed⟩ ∧ seen ++ (d.down ++ x) = answer ∧
      (Client.resumeHead seen).ended = .returned r ∧
      (Client.resumeHead seen = .returned r ∨ d.down ++ x = []) := by
  obtain ⟨up, down, client, daemon⟩ := d
  cases h with
  | asking got hdown hclient hdaemon hgot hmore =>
    have hreads := hanswers.reads got _ hgot hmore
    rw [← hdaemon] at hreads
    cases up with
    | cons b up =>
      have hone : 1 ≤ maxRead := by decide
      exact absurd (Step.daemonReads [b] up down client daemon hreads (List.cons_ne_nil b []) hone)
        (hstuck _)
    | nil =>
      rcases hclient with ⟨pending, hwriting⟩ | hreading
      · obtain rfl : client = .writing pending := hwriting
        have hfull := (stuck_writing m cap [] down pending daemon hstuck).2.1
        exact absurd hfull (Nat.not_le.mpr cap.up_pos)
      · obtain rfl : client = .readingHead [] := hreading
        exact absurd rfl hmore
  | answering seen rest hup hclient hdaemon hall =>
    rcases client_cases client with ⟨pending, rfl⟩ | hreading | ⟨r, rfl⟩
    · have hleft := (stuck_writing m cap up down pending daemon hstuck).2.2
      exact absurd (waiting_writing pending seen hclient).1 hleft
    · obtain ⟨hdown, hshut, hclosed⟩ := stuck_reading m cap up down client daemon hreading hstuck
      rcases hdaemon with ⟨outcome, pending, hwriting, -⟩ | ⟨hgone | hgone, -⟩
      · obtain rfl : daemon = .writing outcome pending := hwriting
        have hfull := (stuck_reporting m cap up down client outcome pending hstuck).2
          (waiting_open client seen hclient)
        rw [hdown] at hfull
        exact absurd hfull (Nat.not_le.mpr cap.down_pos)
      · exact absurd hgone hshut
      · exact absurd hgone hclosed
    · exact absurd rfl (waiting_open _ seen hclient r)
  | answered r seen x hup hclient hquiet hall hr hwhole =>
    obtain rfl : up = [] := hup
    obtain rfl : client = .returned r := hclient
    cases daemon with
    | readingHead buf => cases hquiet
    | readingBody head buf => cases hquiet
    | writing outcome pending =>
      cases pending with
      | nil => exact absurd (Step.daemonShuts [] down _ outcome) (hstuck _)
      | cons buf rest =>
        by_cases hbuf : buf = []
        · rw [hbuf] at hstuck
          exact absurd (Step.daemonWrote [] down rest _ outcome) (hstuck _)
        · exact absurd (Step.daemonFails [] down buf rest r outcome hbuf) (hstuck _)
    | shut => exact absurd (Step.daemonCloses [] down _) (hstuck _)
    | closed => exact ⟨r, seen, x, rfl, hall, hr, hwhole⟩

theorem exchange_ends (hanswers : Answers m request answer) (method target : Text)
    (headers : List Header) (body : Bytes)
    (hrequest : requestHead method target headers body.length ++ body = request)
    (steps : List (Duplex × Duplex)) (final : Duplex)
    (hrun : Path (Step m cap) (Duplex.start method target headers body) steps final)
    (hcomplete : Stuck (Step m cap) final) :
    ∃ r seen x, final = ⟨[], final.down, .returned r, .closed⟩ ∧ seen ++ (final.down ++ x) = answer ∧
      (Client.resumeHead seen).ended = .returned r ∧
      (Client.resumeHead seen = .returned r ∨ final.down ++ x = []) := by
  have hstart := stage_start m request answer method target headers body hrequest hanswers.nonempty
  have hlast := path_preserves (Stage m request answer)
    (fun d d' h hstep => stage_step m cap request answer d d' hanswers h hstep) hrun hstart
  exact stage_stuck m cap request answer final hanswers hlast hcomplete

end Stages

end Capcurl.Delivery
