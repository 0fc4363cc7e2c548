import Capcurl.Delivery.Ends
import Capcurl.Delivery.Parties
import Capcurl.Delivery.Refusals
import Capcurl.Marker

/-! # What becomes of a refusal on its way to the client -/

namespace Capcurl.Delivery

open Lib Http Policy Capcurl.Core Spec ResponseCodec Session Relay Marker

/-! ## Every run, up to the refusal -/

/-- The step in which the daemon stops reading, to refuse. -/
def Refuses (e : CoreError) (d d' : Duplex) : Prop :=
  d.daemon.isReading = true ∧ d'.daemon = Daemon.refuse e

/-- Where both programs are while the daemon reads: nothing has come back, and the client has not got
past the start of the response. -/
structure Asking (m : Mint) (d : Duplex) : Prop where
  down : d.down = []
  client : (∃ pending, d.client = .writing pending) ∨ d.client = .readingHead []
  daemon : ∃ reads : List Bytes, (∀ r ∈ reads, r ≠ []) ∧
    d.daemon = reads.foldl (Daemon.read m) (Daemon.resumeHead m [])

structure Sound (m : Mint) (cap : Capacity) (d : Duplex) : Prop where
  up : d.up.length ≤ cap.up
  asking : d.daemon.isReading = true → Asking m d

section Run

variable (m : Mint) (cap : Capacity)

theorem sound_start (method target : Text) (headers : List Header) (body : Bytes) :
    Sound m cap (Duplex.start method target headers body) := by
  refine ⟨Nat.zero_le _, fun _ => ⟨rfl, .inl ⟨_, rfl⟩, [], by simp, ?_⟩⟩
  rfl

theorem asking_read (d d' : Duplex) (part : Bytes) (h : Asking m d) (hpart : part ≠ [])
    (hdown : d'.down = d.down) (hclient : d'.client = d.client) (hread : d'.daemon = d.daemon.read m part) :
    Asking m d' := by
  obtain ⟨reads, hne, hreads⟩ := h.daemon
  refine ⟨by rw [hdown, h.down], by rw [hclient]; exact h.client, reads ++ [part], ?_, ?_⟩
  · simpa [or_imp, forall_and, hpart] using hne
  · rw [List.foldl_append, ← hreads, hread]
    rfl

theorem sound_step (d d' : Duplex) (h : Sound m cap d) (hstep : Step m cap d d') : Sound m cap d' := by
  obtain ⟨hup, hasking⟩ := h
  cases hstep with
  | clientWrites up down part more rest daemon hpart hroom hopen =>
    exact ⟨hroom, fun h => ⟨(hasking h).down, .inl ⟨_, rfl⟩, (hasking h).daemon⟩⟩
  | clientWrote up down rest daemon =>
    exact ⟨hup, fun h => ⟨(hasking h).down, .inl ⟨_, rfl⟩, (hasking h).daemon⟩⟩
  | clientTurns up down daemon =>
    exact ⟨hup, fun h => ⟨(hasking h).down, .inr Client.resumeHead_nil, (hasking h).daemon⟩⟩
  | clientFails up down buf rest hbuf => exact ⟨hup, nofun⟩
  | clientReads up part down client daemon hreading hpart hmax =>
    -- nothing has come back
    exact ⟨hup, fun h => (hpart (List.append_eq_nil_iff.mp (hasking h).down).1).elim⟩
  | clientEnds up client daemon hreading hgone =>
    refine ⟨hup, fun h => ?_⟩
    rcases hgone with rfl | rfl <;> cases h
  | daemonReads part up down client daemon hreading hpart hmax =>
    refine ⟨?_, fun _ => asking_read m _ _ part (hasking hreading) hpart rfl rfl rfl⟩
    rw [List.length_append] at hup
    exact (Nat.le_add_left _ _).trans hup
  | daemonEnds down r daemon hreading =>
    rcases (hasking hreading).client with ⟨pending, h⟩ | h <;> cases h
  | daemonWrites up down part more rest client outcome hpart hroom hopen => exact ⟨hup, nofun⟩
  | daemonWrote up down rest client outcome => exact ⟨hup, nofun⟩
  | daemonFails up down buf rest r outcome hbuf => exact ⟨hup, nofun⟩
  | daemonShuts up down client outcome => exact ⟨hup, nofun⟩
  | daemonCloses up down client => exact ⟨hup, nofun⟩

theorem sound_path (method target : Text) (headers : List Header) (body : Bytes)
    (steps : List (Duplex × Duplex)) (d : Duplex)
    (hpath : Path (Step m cap) (Duplex.start method target headers body) steps d) : Sound m cap d :=
  path_preserves (Sound m cap) (sound_step m cap) hpath (sound_start m cap method target headers body)

theorem daemon_cases (d d' : Duplex) (hstep : Step m cap d d') :
    d'.daemon = d.daemon ∨ d'.client = d.client ∧ d.daemon ≠ .closed := by
  cases hstep with
  | clientWrites => exact .inl rfl
  | clientWrote => exact .inl rfl
  | clientTurns => exact .inl rfl
  | clientFails => exact .inl rfl
  | clientReads => exact .inl rfl
  | clientEnds => exact .inl rfl
  | daemonReads part up down client daemon hreading hpart hmax =>
    refine .inr ⟨rfl, ?_⟩
    rintro rfl
    cases hreading
  | daemonEnds down r daemon hreading =>
    refine .inr ⟨rfl, ?_⟩
    rintro rfl
    cases hreading
  | daemonWrites => exact .inr ⟨rfl, nofun⟩
  | daemonWrote => exact .inr ⟨rfl, nofun⟩
  | daemonFails => exact .inr ⟨rfl, nofun⟩
  | daemonShuts => exact .inr ⟨rfl, nofun⟩
  | daemonCloses => exact .inr ⟨rfl, nofun⟩

theorem closed_step (d d' : Duplex) (h : d.daemon = .closed) (hstep : Step m cap d d') :
    d'.daemon = .closed := by
  rcases daemon_cases m cap d d' hstep with hsame | ⟨-, hopen⟩
  · rw [hsame, h]
  · exact absurd h hopen

theorem closes_cases (d d' : Duplex) (hstep : Step m cap d d') (hshut : d.daemon = .shut)
    (hclosed : d'.daemon = .closed) : d'.client = d.client := by
  rcases daemon_cases m cap d d' hstep with hsame | ⟨hclient, -⟩
  · rw [hsame, hshut] at hclosed
    cases hclosed
  · exact hclient

theorem returned_step (d d' : Duplex) (r : Except (Halt CoreError) Response) (h : d.client = .returned r)
    (hstep : Step m cap d d') : d'.client = d.client := by
  cases hstep with
  | clientWrites => cases h
  | clientWrote => cases h
  | clientTurns => cases h
  | clientFails => cases h
  | clientReads up part down client daemon hreading hpart hmax =>
    obtain rfl : client = .returned r := h
    cases hreading
  | clientEnds up client daemon hreading hgone =>
    obtain rfl : client = .returned r := h
    cases hreading
  | daemonReads => rfl
  | daemonEnds => rfl
  | daemonWrites => rfl
  | daemonWrote => rfl
  | daemonFails => rfl
  | daemonShuts => rfl
  | daemonCloses => rfl

theorem reading_cases (d d' : Duplex) (hstep : Step m cap d d') (hreading : d.daemon.isReading = true) :
    d'.daemon = d.daemon ∨
    (d'.client = d.client ∧ d'.down = d.down ∧
      ∃ part, part ≠ [] ∧ d'.daemon = d.daemon.read m part) ∨
    ∃ r, d.client = .returned r := by
  cases hstep with
  | clientWrites => exact .inl rfl
  | clientWrote => exact .inl rfl
  | clientTurns => exact .inl rfl
  | clientFails => exact .inl rfl
  | clientReads => exact .inl rfl
  | clientEnds => exact .inl rfl
  | daemonReads part up down client daemon _ hpart hmax =>
    exact .inr (.inl ⟨rfl, rfl, part, hpart, rfl⟩)
  | daemonEnds down r daemon _ => exact .inr (.inr ⟨r, rfl⟩)
  | daemonWrites => cases hreading
  | daemonWrote => cases hreading
  | daemonFails => cases hreading
  | daemonShuts => cases hreading
  | daemonCloses => cases hreading

theorem refuses_cases (e : CoreError) (d d' : Duplex) (h : Sound m cap d) (hstep : Step m cap d d')
    (hrefuses : Refuses e d d') :
    d'.client = d.client ∧ d'.down = [] ∧
      ∃ part, part ≠ [] ∧ d.daemon.read m part = Daemon.refuse e := by
  obtain ⟨hreading, hrefuse⟩ := hrefuses
  have hasking := h.asking hreading
  rcases reading_cases m cap d d' hstep hreading with
    hsame | ⟨hclient, hdown, part, hpart, hread⟩ | ⟨r, hr⟩
  · rw [← hsame, hrefuse] at hreading
    cases hreading
  · exact ⟨hclient, by rw [hdown, hasking.down], part, hpart, by rw [← hread, hrefuse]⟩
  · rcases hasking.client with ⟨pending, h⟩ | h <;> rw [hr] at h <;> cases h

theorem refuses_serves (e : CoreError) (d d' : Duplex) (h : Sound m cap d) (hstep : Step m cap d d')
    (hrefuses : Refuses e d d') :
    ∃ reads : List Bytes, (∀ r ∈ reads, r ≠ []) ∧ ∀ w : World, w.stream.reads = reads →
      w.stream.readError = none → w.stream.room = none →
        result (serveRequest m.config m.boundMethod m.boundTarget m.url w) = .error (.err e) := by
  obtain ⟨reads, hne, hreads⟩ := (h.asking hrefuses.1).daemon
  obtain ⟨-, -, part, hpart, hread⟩ := refuses_cases m cap e d d' h hstep hrefuses
  refine ⟨reads ++ [part], by simpa [or_imp, forall_and, hpart] using hne, ?_⟩
  intro w hw hend hroom
  have hserved := daemon_after m w (by rw [hw]; simpa [or_imp, forall_and, hpart] using hne) hend hroom
  have hrefused : (w.stream.reads.foldl (Daemon.read m) (Daemon.resumeHead m [])).ended =
      Daemon.refuse e := by
    rw [hw, List.foldl_append, ← hreads, List.foldl_cons, hread]
    rfl
  rw [hrefused] at hserved
  rcases hserved with ⟨e', hresult, hfail⟩ | ⟨pending, -, hpending, -⟩
  · rw [hresult]
    cases e' with
    | err e' => rw [refuse_injective e e' hfail]
    | panic => cases hfail
    | fuel => cases hfail
  · cases hpending

end Run

/-! ## The client, on a refusal -/

theorem clientAfter_snoc (reads : List Bytes) (part : Bytes) :
    clientAfter (reads ++ [part]) = (clientAfter reads).read part := by
  rw [clientAfter, List.foldl_append]
  rfl

theorem clientAfter_cases (reads : List Bytes) (hne : ∀ r ∈ reads, r ≠ []) :
    (clientAfter reads).isReading = true ∨ ∃ r, clientAfter reads = .returned r := by
  have hended := client_after ⟨reads, none, none, [], []⟩ hne rfl
  dsimp only at hended
  cases hclient : clientAfter reads with
  | writing pending =>
    rw [hclient] at hended
    cases hended
  | readingHead buf => exact .inl rfl
  | readingBody status reason headers length buf => exact .inl rfl
  | returned r => exact .inr ⟨r, rfl⟩

theorem reading_left (client : Client) (h : client.isReading = true) : client.left = [] := by
  cases client with
  | writing pending => cases h
  | readingHead buf => rfl
  | readingBody status reason headers length buf => rfl
  | returned r => rfl

theorem clientAfter_left (reads : List Bytes) (hne : ∀ r ∈ reads, r ≠ []) :
    (clientAfter reads).left = [] := by
  rcases clientAfter_cases reads hne with hreading | ⟨r, hr⟩
  · exact reading_left _ hreading
  · rw [hr]
    rfl

/-- The answer that a refusal is to the client. -/
def refused (e : CoreError) : Response := responseOf (refusalFor e).1 (refusalFor e).2

section Answer

variable (e : CoreError) (hshort : Short e) (reads : List Bytes)
include hshort

theorem whole_returned (hs : Segmented maxRead (refusalBytes e) reads) :
    clientAfter reads = .returned (.ok (refused e)) := by
  have hended := client_after ⟨reads, none, none, [], []⟩ hs.nonempty rfl
  obtain ⟨s', hread, -⟩ := read_whole_refusal e hshort ⟨reads, none, none, [], []⟩ hs
  rw [hread] at hended
  dsimp only at hended
  cases hclient : clientAfter reads with
  | writing pending =>
    rw [hclient] at hended
    cases hended
  | readingHead buf =>
    rw [hclient] at hended
    cases hended
  | readingBody status reason headers length buf =>
    rw [hclient] at hended
    cases hended
  | returned r =>
    rw [hclient] at hended
    exact hended

theorem returned_whole (s rest : Bytes) (hs : Segmented maxRead s reads)
    (hwhole : s ++ rest = refusalBytes e) (r : Except (Halt CoreError) Response)
    (hreturned : clientAfter reads = .returned r) : rest = [] ∧ r = .ok (refused e) := by
  obtain ⟨more, hmore⟩ := exists_segmented maxRead (by decide) rest
  have hall := segmented_append maxRead s rest reads more hs hmore
  rw [hwhole] at hall
  have hlast := whole_returned e hshort (reads ++ more) hall
  rw [clientAfter, List.foldl_append] at hlast
  change more.foldl Client.read (clientAfter reads) = _ at hlast
  rw [hreturned, foldl_returned] at hlast
  have hr : r = .ok (refused e) := by injection hlast
  refine ⟨?_, hr⟩
  have hended := client_after ⟨reads, none, none, [], []⟩ hs.nonempty rfl
  dsimp only at hended
  rw [hreturned, hr] at hended
  cases hread : readResponse ⟨reads, none, none, [], []⟩ with
  | error e' s' =>
    rw [hread] at hended
    cases hended
  | ok response s' =>
    obtain ⟨status, reason, detail, hstatus, heq⟩ := refusalFor_refusal e
    obtain ⟨henc, hno, -⟩ := refusal_head status reason detail hstatus
    unfold refusalBytes at hwhole
    rw [heq] at hwhole
    exact (read_part _ _ s rest _ s' response henc hno hwhole hs.nonempty
      (by rw [hs.flatten]) hread).1

end Answer

/-! ## Runs that can go no further -/

section Stuck

variable (m : Mint) (cap : Capacity)

theorem client_cases (client : Client) :
    (∃ pending, client = .writing pending) ∨ client.isReading = true ∨
      ∃ r, client = .returned r := by
  cases client with
  | writing pending => exact .inl ⟨pending, rfl⟩
  | readingHead buf => exact .inr (.inl rfl)
  | readingBody status reason headers length buf => exact .inr (.inl rfl)
  | returned r => exact .inr (.inr ⟨r, rfl⟩)

theorem stuck_writing (up down : Bytes) (pending : List Bytes) (daemon : Daemon)
    (h : Stuck (Step m cap) ⟨up, down, .writing pending, daemon⟩) :
    daemon ≠ .closed ∧ cap.up ≤ up.length ∧ pending.flatten ≠ [] := by
  cases pending with
  | nil => exact absurd (Step.clientTurns up down daemon) (h _)
  | cons buf rest =>
    cases buf with
    | nil => exact absurd (Step.clientWrote up down rest daemon) (h _)
    | cons b more =>
      have hopen : daemon ≠ .closed := by
        rintro rfl
        exact h _ (Step.clientFails up down (b :: more) rest (List.cons_ne_nil b more))
      refine ⟨hopen, ?_, by simp⟩
      by_contra hroom
      refine h _ (Step.clientWrites up down [b] more rest daemon (List.cons_ne_nil b []) ?_ hopen)
      rw [List.length_append, List.length_singleton]
      omega

theorem stuck_reading (up down : Bytes) (client : Client) (daemon : Daemon)
    (hreading : client.isReading = true) (h : Stuck (Step m cap) ⟨up, down, client, daemon⟩) :
    down = [] ∧ daemon ≠ .shut ∧ daemon ≠ .closed := by
  cases down with
  | nil =>
    refine ⟨rfl, ?_, ?_⟩
    · intro hshut
      exact h _ (Step.clientEnds up client daemon hreading (.inl hshut))
    · intro hclosed
      exact h _ (Step.clientEnds up client daemon hreading (.inr hclosed))
  | cons b down =>
    have hone : 1 ≤ maxRead := by decide
    exact absurd (Step.clientReads up [b] down client daemon hreading (List.cons_ne_nil b []) hone) (h _)

theorem stuck_reporting (up down : Bytes) (client : Client) (outcome : Except CoreError Unit)
    (pending : List Bytes) (h : Stuck (Step m cap) ⟨up, down, client, .writing outcome pending⟩) :
    pending.flatten ≠ [] ∧ ((∀ r, client ≠ .returned r) → cap.down ≤ down.length) := by
  cases pending with
  | nil => exact absurd (Step.daemonShuts up down client outcome) (h _)
  | cons buf rest =>
    cases buf with
    | nil => exact absurd (Step.daemonWrote up down rest client outcome) (h _)
    | cons b more =>
      refine ⟨by simp, fun hopen => ?_⟩
      by_contra hroom
      refine h _ (Step.daemonWrites up down [b] more rest client outcome (List.cons_ne_nil b []) ?_ hopen)
      rw [List.length_append, List.length_singleton]
      omega

end Stuck

/-! ## Every run, from the refusal on -/

/-- What the condition asks of a step. The daemon does not close its end while the client has something
left to write; and as it turns to refuse, what the client has left fits in the channel, or the refusal
does. -/
structure Patient (cap : Capacity) (d d' : Duplex) : Prop where
  closes : d.daemon = .shut → d'.daemon = .closed → d.client.left = []
  fits : ∀ e, Refuses e d d' →
    (d'.up ++ d.client.left).length ≤ cap.up ∨ (refusalBytes e).length ≤ cap.down

/-- The client returned the refusal of `e`. -/
def Delivered (e : CoreError) (client : Client) : Prop :=
  ∃ response, client = .returned (.ok response) ∧ response.refused = true ∧
    response.status = (refusalFor e).1.status

/-- Where the daemon stands, with `rest` of the refusal still to write. -/
def Reporting (cap : Capacity) (e : CoreError) (d : Duplex) (rest : Bytes) : Prop :=
  match d.daemon with
  | .writing outcome pending =>
    outcome = .error e ∧ pending.flatten = rest ∧
      ((d.up ++ d.client.left).length ≤ cap.up ∨ (refusalBytes e).length ≤ cap.down)
  | .shut => rest = []
  | .closed => rest = [] ∧ d.client.left = []
  | _ => False

/-- A refusal on its way: the client has read `seen` of it, the channel holds what comes next, and the
daemon has `rest`. -/
structure UnderWay (cap : Capacity) (e : CoreError) (d : Duplex) (reads : List Bytes) (seen rest : Bytes) :
    Prop where
  up : d.up.length ≤ cap.up
  segmented : Segmented maxRead seen reads
  whole : seen ++ (d.down ++ rest) = refusalBytes e
  client : reads = [] ∧ (∃ pending, d.client = .writing pending) ∨ d.client = clientAfter reads
  daemon : Reporting cap e d rest

theorem reporting_quiet (cap : Capacity) (e : CoreError) (d : Duplex) (rest : Bytes)
    (h : Reporting cap e d rest) : d.daemon.isReading = false := by
  unfold Reporting at h
  cases hdaemon : d.daemon with
  | readingHead buf =>
    rw [hdaemon] at h
    exact h.elim
  | readingBody head buf =>
    rw [hdaemon] at h
    exact h.elim
  | writing outcome pending => rfl
  | shut => rfl
  | closed => rfl

section Report

variable (m : Mint) (cap : Capacity) (e : CoreError) (d d' : Duplex)

theorem underWay_refuses (h : Sound m cap d) (hstep : Step m cap d d') (hrefuses : Refuses e d d')
    (hpatient : Patient cap d d') : UnderWay cap e d' [] [] (refusalBytes e) := by
  obtain ⟨hclient, hdown, -⟩ := refuses_cases m cap e d d' h hstep hrefuses
  refine ⟨(sound_step m cap d d' h hstep).up, segmented_nil maxRead, ?_, ?_, ?_⟩
  · rw [hdown]
    rfl
  · rw [hclient]
    rcases (h.asking hrefuses.1).client with hwriting | hreading
    · exact .inl ⟨rfl, hwriting⟩
    · exact .inr hreading
  · unfold Reporting
    rw [hrefuses.2, hclient]
    exact ⟨rfl, by simp [refusalBytes], hpatient.fits e hrefuses⟩

variable (reads : List Bytes) (seen rest : Bytes) (h : UnderWay cap e d reads seen rest)
include h

theorem underWay_writing (pending : List Bytes) (hclient : d.client = .writing pending) :
    reads = [] ∧ seen = [] := by
  rcases h.client with ⟨rfl, -⟩ | hafter
  · exact ⟨rfl, h.segmented.flatten.symm⟩
  · rw [hclient] at hafter
    rcases clientAfter_cases reads h.segmented.nonempty with hreading | ⟨r, hr⟩
    · rw [← hafter] at hreading
      cases hreading
    · rw [hr] at hafter
      cases hafter

theorem underWay_reading (hreading : d.client.isReading = true) : d.client = clientAfter reads := by
  rcases h.client with ⟨-, pending, hwriting⟩ | hafter
  · rw [hwriting] at hreading
    cases hreading
  · exact hafter

theorem underWay_returned (hshort : Short e) (r : Except (Halt CoreError) Response)
    (hreturned : d.client = .returned r) : rest = [] ∧ d.down = [] ∧ r = .ok (refused e) := by
  rcases h.client with ⟨-, pending, hwriting⟩ | hafter
  · rw [hwriting] at hreturned
    cases hreturned
  · rw [hafter] at hreturned
    obtain ⟨hrest, hr⟩ := returned_whole e hshort reads seen _ h.segmented h.whole r hreturned
    exact ⟨(List.append_eq_nil_iff.mp hrest).2, (List.append_eq_nil_iff.mp hrest).1, hr⟩

theorem underWay_unended (hshort : Short e) (hreading : d.client.isReading = true)
    (hgone : d.daemon = .shut ∨ d.daemon = .closed) : d.down ≠ [] := by
  intro hdown
  have hrest : rest = [] := by
    have hdaemon := h.daemon
    unfold Reporting at hdaemon
    rcases hgone with hshut | hclosed
    · rw [hshut] at hdaemon
      exact hdaemon
    · rw [hclosed] at hdaemon
      exact hdaemon.1
  have hwhole := h.whole
  have hsegmented := h.segmented
  rw [hdown, hrest, List.append_nil, List.append_nil] at hwhole
  rw [hwhole] at hsegmented
  have hafter := underWay_reading cap e d reads seen rest h hreading
  rw [hafter, whole_returned e hshort reads hsegmented] at hreading
  cases hreading

theorem underWay_read (hreading : d.client.isReading = true) (part down : Bytes)
    (hdown : d.down = part ++ down) (hpart : part ≠ []) (hmax : part.length ≤ maxRead) :
    UnderWay cap e ⟨d.up, down, d.client.read part, d.daemon⟩ (reads ++ [part]) (seen ++ part) rest := by
  have hafter := underWay_reading cap e d reads seen rest h hreading
  have hnext := segmented_append maxRead _ _ _ _ h.segmented (segmented_singleton maxRead part hpart hmax)
  have hleft : (d.client.read part).left = d.client.left := by
    rw [hafter, ← clientAfter_snoc, clientAfter_left _ hnext.nonempty,
      clientAfter_left _ h.segmented.nonempty]
  refine ⟨h.up, hnext, ?_, .inr ?_, ?_⟩
  · rw [← h.whole, hdown]
    simp only [List.append_assoc]
  · rw [clientAfter_snoc, ← hafter]
  · have hdaemon := h.daemon
    unfold Reporting at hdaemon ⊢
    rw [hleft]
    exact hdaemon

theorem underWay_step (hshort : Short e) (hstep : Step m cap d d') (hpatient : Patient cap d d') :
    ∃ reads seen rest, UnderWay cap e d' reads seen rest := by
  have hwriting := underWay_writing cap e d reads seen rest h
  have hreturned := underWay_returned cap e d reads seen rest h hshort
  have hread := underWay_read cap e d reads seen rest h
  have hunended := underWay_unended cap e d reads seen rest h hshort
  obtain ⟨hup, hsegmented, hwhole, hclient, hdaemon⟩ := h
  cases hstep with
  | clientWrites up down part more rest' daemon hpart hroom hopen =>
    obtain ⟨rfl, rfl⟩ := hwriting _ rfl
    refine ⟨[], [], rest, hroom, hsegmented, hwhole, .inl ⟨rfl, _, rfl⟩, ?_⟩
    cases daemon with
    | writing outcome pending => simpa [Reporting, Client.left] using hdaemon
    | shut => exact hdaemon
    | closed => exact absurd rfl hopen
    | readingHead buf => exact hdaemon
    | readingBody head buf => exact hdaemon
  | clientWrote up down rest' daemon =>
    obtain ⟨rfl, rfl⟩ := hwriting _ rfl
    exact ⟨[], [], rest, hup, hsegmented, hwhole, .inl ⟨rfl, _, rfl⟩, hdaemon⟩
  | clientTurns up down daemon =>
    obtain ⟨rfl, rfl⟩ := hwriting _ rfl
    exact ⟨[], [], rest, hup, hsegmented, hwhole, .inr rfl, hdaemon⟩
  | clientFails up down buf rest' hbuf =>
    -- the daemon has closed, so nothing was left
    have hleft : buf ++ rest'.flatten = [] := hdaemon.2
    exact absurd (List.append_eq_nil_iff.mp hleft).1 hbuf
  | clientReads up part down client daemon hreads hpart hmax =>
    exact ⟨_, _, _, hread hreads part down rfl hpart hmax⟩
  | clientEnds up client daemon hreads hgone =>
    exact absurd rfl (hunended hreads hgone)
  | daemonReads part up down client daemon hreads hpart hmax =>
    have hquiet := reporting_quiet cap e _ rest hdaemon
    rw [hreads] at hquiet
    cases hquiet
  | daemonEnds down r daemon hreads =>
    have hquiet := reporting_quiet cap e _ rest hdaemon
    rw [hreads] at hquiet
    cases hquiet
  | daemonWrites up down part more rest' client outcome hpart hroom hopen =>
    obtain ⟨houtcome, hrest, hfits⟩ := hdaemon
    refine ⟨reads, seen, more ++ rest'.flatten, hup, hsegmented, ?_, hclient, houtcome, rfl, hfits⟩
    rw [← hwhole, ← hrest]
    simp
  | daemonWrote up down rest' client outcome =>
    exact ⟨reads, seen, rest, hup, hsegmented, hwhole, hclient, hdaemon⟩
  | daemonFails up down buf rest' r outcome hbuf =>
    -- a client that returned has read it all
    obtain ⟨rfl, -, -⟩ := hreturned r rfl
    exact absurd (List.append_eq_nil_iff.mp hdaemon.2.1).1 hbuf
  | daemonShuts up down client outcome =>
    exact ⟨reads, seen, rest, hup, hsegmented, hwhole, hclient, hdaemon.2.1.symm⟩
  | daemonCloses up down client =>
    exact ⟨reads, seen, rest, hup, hsegmented, hwhole, hclient, hdaemon, hpatient.closes rfl rfl⟩

theorem underWay_stuck (hshort : Short e) (hstuck : Stuck (Step m cap) d) : Delivered e d.client := by
  have hwriting := underWay_writing cap e d reads seen rest h
  have hreturned := underWay_returned cap e d reads seen rest h hshort
  obtain ⟨-, -, hwhole, -, hdaemon⟩ := h
  obtain ⟨up, down, client, daemon⟩ := d
  have hlength := congrArg List.length hwhole
  simp only [List.length_append] at hlength
  rcases client_cases client with ⟨pending, rfl⟩ | hreading | ⟨r, rfl⟩
  · obtain ⟨rfl, rfl⟩ := hwriting pending rfl
    obtain ⟨hopen, hup, hleft⟩ := stuck_writing m cap up down pending daemon hstuck
    cases daemon with
    | writing outcome pending' =>
      obtain ⟨hpending, hdown⟩ := stuck_reporting m cap up down _ outcome pending' hstuck
      obtain ⟨-, hrest, hfits⟩ := hdaemon
      have hroom := hdown nofun
      have hmore := List.length_pos_of_ne_nil hpending
      have hleft := List.length_pos_of_ne_nil hleft
      rw [hrest] at hmore
      simp only [List.length_append, List.length_nil, Client.left] at hfits hlength
      omega
    | shut => exact absurd (Step.daemonCloses up down _) (hstuck _)
    | closed => exact absurd rfl hopen
    | readingHead buf => exact hdaemon.elim
    | readingBody head buf => exact hdaemon.elim
  · obtain ⟨hdown, hgone, hclosed⟩ := stuck_reading m cap up down client daemon hreading hstuck
    cases daemon with
    | writing outcome pending =>
      obtain ⟨hpending, hroom⟩ := stuck_reporting m cap up down _ outcome pending hstuck
      have hfull := hroom fun r hr => by rw [hr] at hreading; cases hreading
      have hpos := cap.down_pos
      rw [hdown, List.length_nil] at hfull
      omega
    | shut => exact absurd rfl hgone
    | closed => exact absurd rfl hclosed
    | readingHead buf => exact hdaemon.elim
    | readingBody head buf => exact hdaemon.elim
  · obtain ⟨-, -, rfl⟩ := hreturned r rfl
    obtain ⟨status, reason, detail, hstatus, heq⟩ := refusalFor_refusal e
    obtain ⟨-, -, hmarker⟩ := refusal_head status reason detail hstatus
    refine ⟨refused e, rfl, ?_, rfl⟩
    rw [refused, responseOf_refused, heq]
    exact hmarker

end Report

/-! ## What an impatient step does -/

/-- The daemon has closed on a client that had something left to write. -/
structure Severed (d : Duplex) : Prop where
  daemon : d.daemon = .closed
  client : d.client.left ≠ [] ∨ d.client = .returned (.error (.err (.io brokenPipe)))

/-- Both programs write, and neither can finish before the other reads. -/
structure Deadlocked (cap : Capacity) (d : Duplex) : Prop where
  up : d.up.length ≤ cap.up
  down : d.down.length ≤ cap.down
  client : cap.up < (d.up ++ d.client.left).length
  daemon : ∃ outcome pending, d.daemon = .writing outcome pending ∧
    cap.down < (d.down ++ pending.flatten).length

section Impatient

variable (m : Mint) (cap : Capacity) (d d' : Duplex)

theorem severed_step (h : Severed d) (hstep : Step m cap d d') : Severed d' := by
  have hclosed := closed_step m cap d d' h.daemon hstep
  obtain ⟨hdaemon, hleft | hlost⟩ := h
  · refine ⟨hclosed, ?_⟩
    cases hstep with
    | clientWrites up down part more rest daemon hpart hroom hopen => exact absurd hdaemon hopen
    | clientWrote up down rest daemon => exact .inl hleft
    | clientTurns up down daemon => exact absurd rfl hleft
    | clientFails up down buf rest hbuf => exact .inr rfl
    | clientReads up part down client daemon hreading hpart hmax =>
      exact absurd (reading_left client hreading) hleft
    | clientEnds up client daemon hreading hgone => exact absurd (reading_left client hreading) hleft
    | daemonReads => exact .inl hleft
    | daemonEnds => exact .inl hleft
    | daemonWrites => exact .inl hleft
    | daemonWrote => exact .inl hleft
    | daemonFails => exact .inl hleft
    | daemonShuts => exact .inl hleft
    | daemonCloses => exact .inl hleft
  · refine ⟨hclosed, .inr ?_⟩
    rw [returned_step m cap d d' _ hlost hstep, hlost]

theorem deadlocked_step (h : Deadlocked cap d) (hstep : Step m cap d d') : Deadlocked cap d' := by
  obtain ⟨hup, hdown, hclient, outcome', pending', hdaemon, hrest⟩ := h
  have hfull : d.client.left ≠ [] := by
    intro hnil
    rw [hnil, List.append_nil] at hclient
    omega
  cases hstep with
  | clientWrites up down part more rest daemon hpart hroom hopen =>
    refine ⟨hroom, hdown, ?_, outcome', pending', hdaemon, hrest⟩
    simpa [Client.left] using hclient
  | clientWrote up down rest daemon => exact ⟨hup, hdown, hclient, outcome', pending', hdaemon, hrest⟩
  | clientTurns up down daemon => exact absurd rfl hfull
  | clientFails up down buf rest hbuf => cases hdaemon
  | clientReads up part down client daemon hreading hpart hmax =>
    exact absurd (reading_left client hreading) hfull
  | clientEnds up client daemon hreading hgone => exact absurd (reading_left client hreading) hfull
  | daemonReads part up down client daemon hreading hpart hmax =>
    obtain rfl : daemon = .writing outcome' pending' := hdaemon
    cases hreading
  | daemonEnds down r daemon hreading => exact absurd rfl hfull
  | daemonWrites up down part more rest client outcome hpart hroom hopen =>
    cases hdaemon
    refine ⟨hup, hroom, hclient, outcome', more :: rest, rfl, ?_⟩
    simpa using hrest
  | daemonWrote up down rest client outcome =>
    cases hdaemon
    exact ⟨hup, hdown, hclient, outcome', rest, rfl, hrest⟩
  | daemonFails up down buf rest r outcome hbuf => exact absurd rfl hfull
  | daemonShuts up down client outcome =>
    cases hdaemon
    rw [List.flatten_nil, List.append_nil] at hrest
    omega
  | daemonCloses up down client => cases hdaemon

theorem impatient_step (h : Sound m cap d) (hstep : Step m cap d d') (himpatient : ¬ Patient cap d d') :
    Severed d' ∨ Deadlocked cap d' := by
  by_cases hcloses : d.daemon = .shut → d'.daemon = .closed → d.client.left = []
  · right
    by_contra hno
    refine himpatient ⟨hcloses, fun e hrefuses => ?_⟩
    by_contra hfits
    push Not at hfits
    obtain ⟨hclient, hdown, -⟩ := refuses_cases m cap e d d' h hstep hrefuses
    refine hno ⟨(sound_step m cap d d' h hstep).up, by rw [hdown]; exact Nat.zero_le _, ?_, ?_⟩
    · rw [hclient]
      exact hfits.1
    · refine ⟨_, _, hrefuses.2, ?_⟩
      rw [hdown]
      simpa [refusalBytes] using hfits.2
  · left
    push Not at hcloses
    obtain ⟨hshut, hclosed, hleft⟩ := hcloses
    refine ⟨hclosed, .inl ?_⟩
    rw [closes_cases m cap d d' hstep hshut hclosed]
    exact hleft

theorem severed_undelivered (e : CoreError) (h : Severed d) : ¬ Delivered e d.client := by
  rintro ⟨r, hr, -⟩
  rcases h.client with hleft | hlost
  · rw [hr] at hleft
    exact hleft rfl
  · rw [hr] at hlost
    cases hlost

theorem deadlocked_undelivered (e : CoreError) (h : Deadlocked cap d) : ¬ Delivered e d.client := by
  rintro ⟨r, hr, -⟩
  have hclient := h.client
  have hup := h.up
  have hleft : d.client.left = [] := by
    rw [hr]
    rfl
  rw [hleft, List.append_nil] at hclient
  omega

end Impatient

/-! ## The runs that deliver -/

/-- **A refusal reaches the client** in the complete runs of patient steps, and in no others. -/
theorem refusal_delivered_iff (m : Mint) (cap : Capacity) (method target : Text) (headers : List Header)
    (body : Bytes) (steps : List (Duplex × Duplex)) (final : Duplex) (e : CoreError)
    (hrun : Path (Step m cap) (Duplex.start method target headers body) steps final)
    (hcomplete : Stuck (Step m cap) final) (hrefuses : ∃ p ∈ steps, Refuses e p.1 p.2) :
    Delivered e final.client ↔ ∀ p ∈ steps, Patient cap p.1 p.2 := by
  constructor
  · intro hdelivered p hp
    by_contra himpatient
    obtain ⟨before, after, hbefore, hstep, hafter, -, -⟩ := path_split hrun p hp
    have hsound := sound_path m cap method target headers body before p.1 hbefore
    rcases impatient_step m cap p.1 p.2 hsound hstep himpatient with hsevered | hdeadlocked
    · have hlast := path_preserves Severed (severed_step m cap) hafter hsevered
      exact severed_undelivered final e hlast hdelivered
    · have hlast := path_preserves (Deadlocked cap) (deadlocked_step m cap) hafter hdeadlocked
      exact deadlocked_undelivered cap final e hlast hdelivered
  · intro hpatient
    obtain ⟨p, hp, hrefuse⟩ := hrefuses
    obtain ⟨before, after, hbefore, hstep, hafter, -, hsub⟩ := path_split hrun p hp
    have hsound := sound_path m cap method target headers body before p.1 hbefore
    obtain ⟨-, -, part, -, hread⟩ := refuses_cases m cap e p.1 p.2 hsound hstep hrefuse
    have hshort := read_short m e p.1.daemon part hrefuse.1 hread
    have hfirst := underWay_refuses m cap e p.1 p.2 hsound hstep hrefuse (hpatient p hp)
    obtain ⟨reads, seen, rest, hlast⟩ := path_invariant
      (fun d => ∃ reads seen rest, UnderWay cap e d reads seen rest) (Patient cap)
      (fun d d' ⟨reads, seen, rest, h⟩ => underWay_step m cap e d d' reads seen rest h hshort)
      hafter (fun q hq => hpatient q (hsub hq)) ⟨_, _, _, hfirst⟩
    exact underWay_stuck m cap e final reads seen rest hlast hshort hcomplete

/-! ## A refusal of the head -/

section Orders

variable (m : Mint) (cap : Capacity)

theorem client_writes_whole (up down buf : Bytes) (rest : List Bytes) (daemon : Daemon) (hbuf : buf ≠ [])
    (hroom : (up ++ buf).length ≤ cap.up) (hopen : daemon ≠ .closed) :
    Step m cap ⟨up, down, .writing (buf :: rest), daemon⟩
      ⟨up ++ buf, down, .writing ([] :: rest), daemon⟩ := by
  have hstep := Step.clientWrites (m := m) up down buf [] rest daemon hbuf hroom hopen
  rwa [List.append_nil] at hstep

theorem daemon_writes_whole (up down buf : Bytes) (rest : List Bytes) (client : Client)
    (outcome : Except CoreError Unit) (hbuf : buf ≠ []) (hroom : (down ++ buf).length ≤ cap.down)
    (hopen : ∀ r, client ≠ .returned r) :
    Step m cap ⟨up, down, client, .writing outcome (buf :: rest)⟩
      ⟨up, down ++ buf, client, .writing outcome ([] :: rest)⟩ := by
  have hstep := Step.daemonWrites (m := m) up down buf [] rest client outcome hbuf hroom hopen
  rwa [List.append_nil] at hstep

theorem patient_same (d d' : Duplex) (h : d'.daemon = d.daemon) : Patient cap d d' := by
  refine ⟨?_, ?_⟩
  · intro hshut hclosed
    rw [h, hshut] at hclosed
    cases hclosed
  · rintro e ⟨hreading, hrefuse⟩
    rw [← h, hrefuse] at hreading
    cases hreading

theorem patient_writing (d d' : Duplex) (outcome : Except CoreError Unit) (pending : List Bytes)
    (h : d.daemon = .writing outcome pending) : Patient cap d d' := by
  refine ⟨?_, ?_⟩
  · intro hshut
    rw [h] at hshut
    cases hshut
  · rintro e ⟨hreading, -⟩
    rw [h] at hreading
    cases hreading

/-- A run of patient steps. -/
def PatientRun (d d' : Duplex) : Prop :=
  ∃ steps, Path (Step m cap) d steps d' ∧ ∀ p ∈ steps, Patient cap p.1 p.2

theorem patientRun_step (d d' : Duplex) (hstep : Step m cap d d') (hpatient : Patient cap d d') :
    PatientRun m cap d d' :=
  ⟨_, path_single hstep, by simpa using hpatient⟩

theorem patientRun_trans (d₁ d₂ d₃ : Duplex) (h₁ : PatientRun m cap d₁ d₂)
    (h₂ : PatientRun m cap d₂ d₃) : PatientRun m cap d₁ d₃ := by
  obtain ⟨before, hbefore, hp⟩ := h₁
  obtain ⟨after, hafter, hq⟩ := h₂
  exact ⟨before ++ after, path_append hbefore hafter, List.forall_mem_append.mpr ⟨hp, hq⟩⟩

theorem refusal_nonempty (e : CoreError) :
    (refusalFor e).1.encode (refusalFor e).2.length ≠ [] ∧ (refusalFor e).2 ≠ [] := by
  obtain ⟨status, reason, detail, -, heq⟩ := refusalFor_refusal e
  rw [heq]
  constructor
  · simp [ResponseHead.encode, ascii]
  · simp [ResponseHead.refusal, ascii]

theorem requestHead_nonempty (method target : Text) (headers : List Header) (bodyLen : Nat) :
    requestHead method target headers bodyLen ≠ [] := by
  simp [requestHead, ascii]

theorem report_run (e : CoreError) (up : Bytes) (client : Client) (hopen : ∀ r, client ≠ .returned r)
    (hroom : (refusalBytes e).length ≤ cap.down) :
    PatientRun m cap ⟨up, [], client, Daemon.refuse e⟩ ⟨up, refusalBytes e, client, .shut⟩ := by
  obtain ⟨hhead, hbody⟩ := refusal_nonempty e
  have hfirst : ([] ++ (refusalFor e).1.encode (refusalFor e).2.length).length ≤ cap.down := by
    unfold refusalBytes at hroom
    rw [List.length_append] at hroom
    exact (Nat.le_add_right _ _).trans hroom
  have hwriting : ∀ d d' pending, Step m cap d d' → d.daemon = .writing (.error e) pending →
      PatientRun m cap d d' :=
    fun d d' pending hstep h => patientRun_step m cap d d' hstep (patient_writing cap d d' _ pending h)
  apply patientRun_trans
  · exact hwriting _ _ _ (daemon_writes_whole m cap up _ _ _ client _ hhead hfirst hopen) rfl
  apply patientRun_trans
  · exact hwriting _ _ _ (Step.daemonWrote up _ _ client _) rfl
  apply patientRun_trans
  · exact hwriting _ _ _ (daemon_writes_whole m cap up _ _ _ client _ hbody hroom hopen) rfl
  apply patientRun_trans
  · exact hwriting _ _ _ (Step.daemonWrote up _ _ client _) rfl
  · exact hwriting _ _ _ (Step.daemonShuts up _ client _) rfl

theorem closed_completes (d : Duplex) (h : d.daemon = .closed) :
    ∃ final, PatientRun m cap d final ∧ Stuck (Step m cap) final := by
  obtain ⟨steps, final, hpath, hstuck⟩ := exists_complete work (step_works m cap) d
  refine ⟨final, ⟨steps, hpath, fun p hp => ?_⟩, hstuck⟩
  obtain ⟨before, after, hbefore, hstep, -⟩ := path_split hpath p hp
  have hclosed := path_preserves (fun d => d.daemon = .closed) (closed_step m cap) hbefore h
  exact patient_same cap p.1 p.2 (by rw [hclosed, closed_step m cap p.1 p.2 hclosed hstep])

theorem early_refused (e : CoreError) (head up : Bytes) (client : Client)
    (hearly : (Daemon.readingHead []).read m head = Daemon.refuse e) (hne : head ≠ [])
    (hread : head.length ≤ maxRead) (hdown : (refusalBytes e).length ≤ cap.down)
    (hopen : ∀ r, client ≠ .returned r) (d : Duplex)
    (hasked : PatientRun m cap d ⟨head ++ up, [], client, .readingHead []⟩) :
    ∃ steps, Path (Step m cap) d steps ⟨up, refusalBytes e, client, .shut⟩ ∧
      (∃ p ∈ steps, Refuses e p.1 p.2) ∧ ∀ p ∈ steps, Patient cap p.1 p.2 := by
  have hstep : Step m cap ⟨head ++ up, [], client, .readingHead []⟩
      ⟨up, [], client, (Daemon.readingHead []).read m head⟩ :=
    Step.daemonReads head up [] client _ rfl hne hread
  rw [hearly] at hstep
  have hrefuses : Refuses e ⟨head ++ up, [], client, .readingHead []⟩ ⟨up, [], client, Daemon.refuse e⟩ :=
    ⟨rfl, rfl⟩
  have hpatient : Patient cap ⟨head ++ up, [], client, .readingHead []⟩
      ⟨up, [], client, Daemon.refuse e⟩ := by
    refine ⟨nofun, fun e' hrefuses' => .inr ?_⟩
    rw [← refuse_injective e e' hrefuses'.2]
    exact hdown
  obtain ⟨before, hbefore, hp⟩ := hasked
  obtain ⟨after, hafter, hq⟩ := report_run m cap e up client hopen hdown
  have hpath := path_append hbefore (path_append (path_single hstep) hafter)
  refine ⟨_, hpath, ?_, ?_⟩
  · exact ⟨_, List.mem_append_right _ (List.mem_append_left _ (List.mem_singleton_self _)), hrefuses⟩
  · intro p hmem
    rcases List.mem_append.mp hmem with hmem | hmem
    · exact hp p hmem
    · rcases List.mem_append.mp hmem with hmem | hmem
      · rw [List.mem_singleton.mp hmem]
        exact hpatient
      · exact hq p hmem

variable (method target : Text) (headers : List Header) (body : Bytes) (e : CoreError)
  (hearly : (Daemon.readingHead []).read m (requestHead method target headers body.length) =
    Daemon.refuse e)
  (hread : (requestHead method target headers body.length).length ≤ maxRead)
  (hdown : (refusalBytes e).length ≤ cap.down)
include hearly hread hdown

theorem early_refusal_lost (hup : (requestHead method target headers body.length).length ≤ cap.up)
    (hbody : body ≠ []) :
    ∃ steps final, Path (Step m cap) (Duplex.start method target headers body) steps final ∧
      Stuck (Step m cap) final ∧ (∃ p ∈ steps, Refuses e p.1 p.2) ∧
      final.client = .returned (.error (.err (.io brokenPipe))) := by
  have hne := requestHead_nonempty method target headers body.length
  have hasked : PatientRun m cap (Duplex.start method target headers body)
      ⟨requestHead method target headers body.length ++ [], [], .writing [[], body],
        .readingHead []⟩ := by
    rw [List.append_nil]
    exact patientRun_step m cap _ _ (client_writes_whole m cap [] [] _ [body] _ hne hup nofun)
      (patient_same cap _ _ rfl)
  obtain ⟨steps, hpath, ⟨p, hp, hrefuses⟩, -⟩ :=
    early_refused m cap e _ [] (.writing [[], body]) hearly hne hread hdown nofun _ hasked
  have hclosed := hpath.snoc (Step.daemonCloses _ _ _)
  obtain ⟨final, ⟨more, hmore, -⟩, hstuck⟩ :=
    closed_completes m cap ⟨[], refusalBytes e, .writing [[], body], .closed⟩ rfl
  refine ⟨_, final, path_append hclosed hmore, hstuck, ⟨p, by simp [hp], hrefuses⟩, ?_⟩
  have hsevered : Severed ⟨[], refusalBytes e, .writing [[], body], .closed⟩ := by
    refine ⟨rfl, .inl ?_⟩
    simpa [Client.left] using hbody
  have hlast := path_preserves Severed (severed_step m cap) hmore hsevered
  rcases hlast.client with hleft | hlost
  · obtain ⟨up, down, client, daemon⟩ := final
    rcases client_cases client with ⟨pending, rfl⟩ | hreading | ⟨r, rfl⟩
    · exact absurd hlast.daemon (stuck_writing m cap up down pending daemon hstuck).1
    · exact absurd (reading_left client hreading) hleft
    · exact absurd rfl hleft
  · exact hlost

theorem early_refusal_patient
    (hup : (requestHead method target headers body.length ++ body).length ≤ cap.up) (hbody : body ≠ []) :
    ∃ steps final, Path (Step m cap) (Duplex.start method target headers body) steps final ∧
      Stuck (Step m cap) final ∧ (∃ p ∈ steps, Refuses e p.1 p.2) ∧
      ∀ p ∈ steps, Patient cap p.1 p.2 := by
  have hne := requestHead_nonempty method target headers body.length
  have hwriting : ∀ up up' client client', Step m cap ⟨up, [], client, .readingHead []⟩
      ⟨up', [], client', .readingHead []⟩ →
      PatientRun m cap ⟨up, [], client, .readingHead []⟩ ⟨up', [], client', .readingHead []⟩ :=
    fun _ _ _ _ hstep => patientRun_step m cap _ _ hstep (patient_same cap _ _ rfl)
  have hasked : PatientRun m cap (Duplex.start method target headers body)
      ⟨requestHead method target headers body.length ++ body, [], .readingHead [],
        .readingHead []⟩ := by
    apply patientRun_trans
    · refine hwriting _ _ _ _ (client_writes_whole m cap [] [] _ [body] _ hne ?_ nofun)
      rw [List.length_append] at hup
      exact (Nat.le_add_right _ _).trans hup
    apply patientRun_trans
    · exact hwriting _ _ _ _ (Step.clientWrote _ [] [body] _)
    apply patientRun_trans
    · exact hwriting _ _ _ _ (client_writes_whole m cap _ [] body [] _ hbody hup nofun)
    apply patientRun_trans
    · exact hwriting _ _ _ _ (Step.clientWrote _ [] [] _)
    · exact hwriting _ _ _ _ (Step.clientTurns _ [] _)
  obtain ⟨steps, hpath, ⟨p, hp, hrefuses⟩, hpatient⟩ :=
    early_refused m cap e _ body (.readingHead []) hearly hne hread hdown nofun _ hasked
  have hclosed := hpath.snoc (Step.daemonCloses _ _ _)
  obtain ⟨final, ⟨more, hmore, hq⟩, hstuck⟩ :=
    closed_completes m cap ⟨body, refusalBytes e, .readingHead [], .closed⟩ rfl
  refine ⟨_, final, path_append hclosed hmore, hstuck, ⟨p, by simp [hp], hrefuses⟩, ?_⟩
  intro q hmem
  rcases List.mem_append.mp hmem with hmem | hmem
  · rcases List.mem_append.mp hmem with hmem | hmem
    · exact hpatient q hmem
    · rw [List.mem_singleton.mp hmem]
      exact ⟨fun _ _ => rfl, nofun⟩
  · exact hq q hmem

end Orders

/-- A descriptor for `GET /x` that takes a body of three bytes. -/
def narrow : Mint :=
  ⟨{ configFor (answerWith plainName (ascii "v")) with
      grant := { Join.grantBelow with maxRequestBody := 3 } },
    ascii "GET", ascii "/x", bareCall.url⟩

def roomy : Capacity := ⟨4096, 4096, by decide, by decide⟩

def fourBytes : Bytes := ascii "data"

def overThree : CoreError := .denied (.tooLarge .request 3)

theorem narrow_read :
    headCheck (requestHead (ascii "GET") (ascii "/x") [] fourBytes.length) =
        some (.ok (⟨ascii "GET", ascii "/x", .http11, [(ascii "Host", ascii "capability.invalid"),
          (ascii "Content-Length", ascii "4")], .length 4⟩, [])) ∧
      (refusalBytes overThree).length ≤ roomy.down := by
  decide +kernel

theorem narrow_refuses :
    (Daemon.readingHead []).read narrow (requestHead (ascii "GET") (ascii "/x") [] fourBytes.length) =
      Daemon.refuse overThree := by
  change Daemon.resumeHead narrow (requestHead (ascii "GET") (ascii "/x") [] fourBytes.length) = _
  rw [Daemon.resumeHead, narrow_read.1]
  rfl

theorem refusal_delivered_iff_patient :
    ∃ steps final,
      Path (Step narrow roomy) (Duplex.start (ascii "GET") (ascii "/x") [] fourBytes) steps final ∧
      Stuck (Step narrow roomy) final ∧ Delivered overThree final.client := by
  obtain ⟨steps, final, hrun, hcomplete, hrefuses, hpatient⟩ :=
    early_refusal_patient narrow roomy _ _ [] fourBytes overThree narrow_refuses (by decide)
      narrow_read.2 (by decide) (by decide)
  exact ⟨steps, final, hrun, hcomplete,
    (refusal_delivered_iff narrow roomy _ _ [] fourBytes steps final overThree hrun hcomplete hrefuses).mpr
      hpatient⟩

/-- The same request, and a client that had not. -/
theorem refusal_lost :
    ∃ steps final,
      Path (Step narrow roomy) (Duplex.start (ascii "GET") (ascii "/x") [] fourBytes) steps final ∧
      Stuck (Step narrow roomy) final ∧ (∃ p ∈ steps, Refuses overThree p.1 p.2) ∧
      final.client = .returned (.error (.err (.io brokenPipe))) ∧ ¬ Delivered overThree final.client := by
  obtain ⟨steps, final, hrun, hcomplete, hrefuses, hlost⟩ :=
    early_refusal_lost narrow roomy _ _ [] fourBytes overThree narrow_refuses (by decide)
      narrow_read.2 (by decide) (by decide)
  refine ⟨steps, final, hrun, hcomplete, hrefuses, hlost, ?_⟩
  rintro ⟨r, hr, -⟩
  rw [hlost] at hr
  cases hr

end Capcurl.Delivery
