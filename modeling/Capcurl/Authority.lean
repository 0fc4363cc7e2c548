import Capcurl.Caps
import Capcurl.NeedMore
import Capcurl.OneRequest

/-! # The authority of a capability

Which calls of the origin a grant is good for, over all clients that may come to hold its endpoint.
-/

namespace Capcurl.Authority

open Lib Http Policy Capcurl.Core Spec Session OneRequest Caps NeedMore ReadLoop Segmentation

/-! ## Short encodings -/

def hexByte (d : Nat) : Byte := if d < 10 then UInt8.ofNat (48 + d) else UInt8.ofNat (87 + d)

theorem hexByte_hex : ∀ d < 16, isHexDigit (hexByte d) = true := by decide

theorem digitValue_hexByte : ∀ d < 16, digitValue (hexByte d) = d := by decide

theorem exists_size (k n : Nat) (hk : 0 < k) (hk' : k ≤ 16) (hn : n < 16 ^ k) :
    ∃ line, line.length = k ∧ IsSize line n := by
  induction k generalizing n with
  | zero => omega
  | succ k ih =>
    have hlow : n % 16 < 16 := Nat.mod_lt _ (by decide)
    have hone : ∀ line : Bytes, line ++ [hexByte (n % 16)] ≠ [] := fun line => by simp
    by_cases hzero : k = 0
    · subst hzero
      rw [Nat.zero_add, Nat.pow_one] at hn
      refine ⟨[hexByte n], rfl, by simp, by simp, ?_, ?_⟩
      · intro b hb
        rw [List.mem_singleton.mp hb]
        exact hexByte_hex n hn
      · have hvalue : value 16 [hexByte n] = digitValue (hexByte n) := by simp [value]
        rw [hvalue, digitValue_hexByte n hn]
    · have hhigh : n / 16 < 16 ^ k := by
        rw [Nat.div_lt_iff_lt_mul (by decide), ← Nat.pow_succ]
        exact hn
      obtain ⟨line, hlen, hline⟩ := ih (n / 16) (Nat.pos_of_ne_zero hzero) (by omega) hhigh
      refine ⟨line ++ [hexByte (n % 16)], by simp [hlen], hone line, by simp [hlen]; omega, ?_, ?_⟩
      · intro b hb
        rcases List.mem_append.mp hb with hb | hb
        · exact hline.digits b hb
        · rw [List.mem_singleton.mp hb]
          exact hexByte_hex _ hlow
      · rw [value_append, hline.denotes, digitValue_hexByte _ hlow, Nat.mul_comm, Nat.div_add_mod]

theorem isSize_bound (line : Bytes) (n : Nat) (h : IsSize line n) : 0 < line.length ∧ n < 16 ^ line.length := by
  refine ⟨List.length_pos_of_ne_nil h.nonempty, ?_⟩
  rw [← h.denotes]
  exact value_lt 16 line (isSize_hex line n h)

theorem exists_sum (line line' : Bytes) (n n' : Nat) (h : IsSize line n) (h' : IsSize line' n')
    (hlen : n + n' < u64Bound) :
    ∃ sum, IsSize sum (n + n') ∧ sum.length ≤ line.length + line'.length := by
  obtain ⟨hpos, hn⟩ := isSize_bound line n h
  obtain ⟨hpos', hn'⟩ := isSize_bound line' n' h'
  by_cases hwide : 16 ≤ line.length + line'.length
  · obtain ⟨sum, hsum, hsize⟩ := exists_size 16 (n + n') (by decide) (Nat.le_refl 16) hlen
    exact ⟨sum, hsize, by omega⟩
  · have hpow : ∀ k, 0 < k → 16 ≤ 16 ^ k := fun k hk => Nat.le_self_pow (Nat.pos_iff_ne_zero.mp hk) 16
    have hprod : 16 ^ line.length + 16 ^ line'.length ≤ 16 ^ (line.length + line'.length) := by
      rw [Nat.pow_add]
      have := hpow line.length hpos
      have := hpow line'.length hpos'
      nlinarith
    obtain ⟨sum, hsum, hsize⟩ := exists_size (line.length + line'.length) (n + n') (by omega) (by omega) (by omega)
    exact ⟨sum, hsize, by omega⟩

/-- All data in one chunk. -/
def oneChunk (line data : Bytes) : Bytes := line ++ crlf ++ (data ++ crlf) ++ lastChunk

theorem oneChunk_length (line data : Bytes) : (oneChunk line data).length = line.length + data.length + 9 := by
  have hlast : lastChunk.length = 5 := by decide
  unfold oneChunk
  simp only [List.length_append, crlf_length, hlast]
  omega

theorem exists_oneChunk (e b : Bytes) (h : Encodes e b) (hlen : e.length < u64Bound) :
    b = [] ∨ b ≠ [] ∧ ∃ line, IsSize line b.length ∧ (oneChunk line b).length ≤ e.length := by
  induction h with
  | last _ => exact .inl rfl
  | @chunk line data rest body hline hne hrest ih =>
    have hrestLen := encodes_length rest body hrest
    simp only [List.length_append, crlf_length] at hlen
    right
    refine ⟨by simp [hne], ?_⟩
    simp only [oneChunk_length, List.length_append, crlf_length]
    rcases ih (by omega) with rfl | ⟨-, line', hline', hshort⟩
    · exact ⟨line, by simpa using hline, by simp; omega⟩
    · rw [oneChunk_length] at hshort
      obtain ⟨sum, hsum, hsumLen⟩ := exists_sum line line' _ _ hline hline' (by omega)
      exact ⟨sum, hsum, by omega⟩

theorem exists_short (e b : Bytes) (h : Encodes e b) (hlen : e.length < u64Bound) :
    ∃ e', Encodes e' b ∧ e'.length ≤ e.length ∧ e'.length ≤ b.length + 25 := by
  rcases exists_oneChunk e b h hlen with rfl | ⟨hne, line, hline, hshort⟩
  · exact ⟨lastChunk, lastChunk_encodes, encodes_length e [] h, by decide⟩
  · have hwhole := Encodes.chunk hline hne lastChunk_encodes
    rw [List.append_nil] at hwhole
    have hwide := hline.short
    exact ⟨oneChunk line b, hwhole, hshort, by rw [oneChunk_length]; omega⟩

/-! ## What a grant is good for -/

/-- What the kernel can do: no read is empty, and all bytes have a position. -/
structure Physical (w : World) : Prop where
  nonempty : ∀ r ∈ w.stream.reads, r ≠ []
  short : w.stream.reads.flatten.length < u64Bound

/-- The calls of the origin that a connection makes for some client. -/
def CanCall (config : Config) (call : FetchCall) : Prop :=
  ∃ w, Physical w ∧ (finalState (serveConnection config w)).fetches = w.fetches ++ [call]

/-- The calls that a grant permits: it resolves their method and URL, and some request for these carries
their headers and their body. -/
def Permits (parseUrl : Text → Option Url) (grant : Grant) (call : FetchCall) : Prop :=
  ∃ method target text taken head,
    grant.resolve parseUrl method target = .ok (call.method, call.url) ∧
    Whole grant.maxRequestBody text taken head call.body ∧ (text ++ taken).length < u64Bound ∧
    eqIgnoreCase head.method call.method = true ∧ head.target = boundTargetOf grant target ∧
    grant.applyHeaders (clientHeaders head.headers) = .ok call.headers

/-! ## A call was permitted -/

theorem readHead_text (s : Stream) (hne : ∀ r ∈ s.reads, r ≠ []) (head : RequestHead) (leftover : Bytes)
    (rest : List Bytes) (h : readHead s = .ok (head, leftover) { s with reads := rest }) :
    ∃ text, RequestHead.parse text = .ok head ∧ findHeadEnd text = some text.length ∧
      text ++ (leftover ++ rest.flatten) = s.reads.flatten := by
  unfold readHead at h
  rcases readLoop_cases headCheck _ [] s hne with
    ⟨e, unread, herror, -⟩ | ⟨v, seen, unread, hok, hcheck, hseen, -⟩
  · rw [herror] at h
    cases h
  · rw [hok, EStateM.Result.ok.injEq] at h
    obtain ⟨rfl, hstream⟩ := h
    have hrest : unread = rest := congrArg Stream.reads hstream
    subst hrest
    rw [List.nil_append] at hcheck
    unfold headCheck at hcheck
    split at hcheck
    · rename_i stop hstop
      split at hcheck
      · rename_i parsed hparse
        cases hcheck
        have hle := (findHeadEnd_append seen [] stop hstop).2
        have hlen : (seen.take stop).length = stop := by
          rw [List.length_take, Nat.min_eq_left hle]
        have hend := findHeadEnd_part seen _ _ stop hstop (List.take_append_drop stop seen)
        rw [hlen, if_pos (Nat.le_refl stop)] at hend
        refine ⟨seen.take stop, hparse, by rw [hlen, hend], ?_⟩
        rw [← List.append_assoc, List.take_append_drop, hseen]
      · cases hcheck
    · split at hcheck <;> cases hcheck

theorem framed_of_body (limit : UInt64) (framing : Framing) (stream body : Bytes)
    (hlen : stream.length < u64Bound) (hcap : body.length ≤ limit.toNat) (hbody : IsBody framing stream body) :
    ∃ taken, Framed limit framing taken body ∧ taken.length ≤ stream.length := by
  cases framing with
  | none => exact ⟨[], ⟨rfl, hbody⟩, Nat.zero_le _⟩
  | length n =>
    obtain ⟨hn, hprefix⟩ := hbody
    refine ⟨body, ⟨rfl, hn, ?_⟩, hprefix.length_le⟩
    rw [hn] at hcap
    exact UInt64.le_iff_toNat_le.mpr hcap
  | chunked =>
    obtain ⟨e, hencodes, hprefix⟩ := hbody
    have hshort := Nat.lt_of_le_of_lt hprefix.length_le hlen
    obtain ⟨e', hencodes', hle, hle'⟩ := exists_short e body hencodes hshort
    refine ⟨e', ⟨hencodes', hcap, ?_⟩, Nat.le_trans hle hprefix.length_le⟩
    unfold rawBound saturatingAdd saturatingMul
    omega

theorem permits_of_canCall (config : Config) (call : FetchCall) (h : CanCall config call) :
    Permits config.parseUrl config.grant call := by
  obtain ⟨w, hphysical, hfetches⟩ := h
  obtain ⟨⟨method, target, boundMethod, url, unread, -, hresolve, hadmitted⟩, -⟩ :=
    run_called config w call _ (serveConnection_cases config w) hfetches
  obtain ⟨rfl, rfl, head, leftover, rest, hhead, hmethod, htarget, hbody, hheaders⟩ := hadmitted
  obtain ⟨text, hparse, hend, hstream⟩ := readHead_text w.stream hphysical.nonempty head leftover rest hhead
  have hrest := (readHead_splits w.stream hphysical.nonempty head leftover rest hhead).2
  have hshort := hphysical.short
  rw [← hstream, List.length_append] at hshort
  have hbytes : (leftover ++ rest.flatten).length < u64Bound := by omega
  obtain ⟨hcap, hisBody⟩ := readBody_capped config.profile head.framing leftover config.grant.maxRequestBody
    { w.stream with reads := rest } _ call.body (fun r hr => hphysical.nonempty r (hrest.mem hr))
    hbytes hbody
  obtain ⟨taken, hframed, htaken⟩ := framed_of_body _ _ (leftover ++ rest.flatten) _ hbytes hcap hisBody
  exact ⟨method, target, text, taken, head, hresolve, ⟨hparse, hend, hframed⟩,
    by rw [List.length_append]; omega, hmethod, htarget, hheaders⟩

/-! ## A permitted call is made -/

theorem onStream_fetches {α : Type} (m : StreamM α) (w : World) :
    (finalState (onStream m w)).fetches = w.fetches := by
  unfold onStream
  cases m w.stream <;> rfl

theorem handle_fetches (config : Config) (call : FetchCall) (head : RequestHead) (boundTarget : Text)
    (hmethod : eqIgnoreCase head.method call.method = true) (htarget : head.target = boundTarget)
    (hheaders : config.grant.applyHeaders (clientHeaders head.headers) = .ok call.headers) (w : World) :
    (finalState (handle config call.method boundTarget call.url head call.body w)).fetches =
      w.fetches ++ [call] := by
  have hbound : (!eqIgnoreCase head.method call.method || head.target != boundTarget) = false := by
    simp [hmethod, htarget]
  have hfetched : callFetch config
      { method := call.method, url := call.url, headers := call.headers, body := call.body } w =
        (Core.ofExcept (fetchOf config call)) { w with fetches := w.fetches ++ [call] } := rfl
  unfold handle
  simp only [hbound, hheaders, Bool.false_eq_true, if_false, Except.mapError, ofExcept_ok_bind]
  cases hfetch : fetchOf config call with
  | error e =>
    rw [hfetch] at hfetched
    rw [run_bind_error _ _ _ _ _ hfetched]
    rfl
  | ok response =>
    rw [hfetch] at hfetched
    rw [run_bind_ok _ _ _ _ _ hfetched]
    exact onStream_fetches _ _

/-- A world in which the client has sent a mint request, and the daemon `sent` this much. -/
def afterMint (sent : List Message) : World where
  transport := { inbox := [], sendErrors := [], sent }
  socketpairError := none
  intoStreamError := none
  stream := { reads := [], readError := none, room := none, writeError := [], written := [] }
  fetches := []

theorem serveWhole_fetches (config : Config) (call : FetchCall) (method target : Text) (head : RequestHead)
    (hresolve : config.grant.resolve config.parseUrl method target = .ok (call.method, call.url))
    (hmethod : eqIgnoreCase head.method call.method = true)
    (htarget : head.target = boundTargetOf config.grant target)
    (hheaders : config.grant.applyHeaders (clientHeaders head.headers) = .ok call.headers) :
    (finalState (serveWhole config head call.body (minting method target []))).fetches = [call] := by
  have hasked : attempt (onTransport readMintRequest) (minting method target []) =
      .ok (.ok (method, target)) (afterMint []) := rfl
  have hhanded : handOver call.method (boundTargetOf config.grant target) (afterMint []) =
      .ok () (afterMint [.arg call.method, .arg (boundTargetOf config.grant target), .fds 1]) := rfl
  have hserved := handle_fetches config call head _ hmethod htarget hheaders
    (afterMint [.arg call.method, .arg (boundTargetOf config.grant target), .fds 1])
  rw [← (answered_frame _).1] at hserved
  unfold serveWhole connectionWith
  rw [run_bind_ok _ _ _ _ _ hasked]
  simp only [hresolve]
  have hrun := run_bind_ok (handOver call.method (boundTargetOf config.grant target)) (fun _ w => answered
    (handle config call.method (boundTargetOf config.grant target) call.url head call.body w)) _ _ () hhanded
  exact (congrArg (fun r => (finalState r).fetches) hrun).trans hserved

theorem canCall_of_permits (config : Config) (call : FetchCall)
    (h : Permits config.parseUrl config.grant call) : CanCall config call := by
  obtain ⟨method, target, text, taken, head, hresolve, hwhole, hlen, hmethod, htarget, hheaders⟩ := h
  obtain ⟨reads, hs⟩ := exists_segmented maxRead (by decide) (text ++ (taken ++ []))
  rw [List.length_append] at hlen
  obtain ⟨unread, hrun⟩ := one_request_served config text taken head call.body hwhole [] reads hs
    (by rw [List.append_nil]; omega) (minting method target [])
  refine ⟨minting method target reads, ⟨hs.nonempty, ?_⟩, ?_⟩
  · have hflat : (minting method target reads).stream.reads.flatten = text ++ taken := by
      rw [← List.append_nil (text ++ taken), List.append_assoc]
      exact hs.flatten
    rw [hflat, List.length_append]
    exact hlen
  · have hworld : withReads reads (minting method target []) = minting method target reads := rfl
    have hsame : ∀ r : EStateM.Result (Halt CoreError) World Unit,
        (finalState (mapState (withReads unread) r)).fetches = (finalState r).fetches := by
      intro r
      cases r <;> rfl
    rw [← hworld, hrun, hsame, serveWhole_fetches config call method target head hresolve hmethod htarget hheaders]
    rfl

/-- **The authority of a capability**: over all clients, the calls of the origin that an endpoint makes are
those that its grant permits, whatever the origin answers. -/
theorem canCall_iff_permits (config : Config) (call : FetchCall) :
    CanCall config call ↔ Permits config.parseUrl config.grant call :=
  ⟨permits_of_canCall config call, canCall_of_permits config call⟩

end Capcurl.Authority
