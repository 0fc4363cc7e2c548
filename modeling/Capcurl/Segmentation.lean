import Capcurl.ReadLoop

/-! # A request depends on its bytes alone, not on its reads -/

namespace Capcurl.Segmentation

open Lib Http Policy Capcurl.Core ReadLoop

/-! ## How a read loop ends -/

section Loop

variable {β : Type} (check : Bytes → Option (Except (Halt CoreError) β)) (ended : Bytes → CoreError)
  (buf : Bytes) (s : Stream)

theorem readLoop_starved (hne : ∀ r ∈ s.reads, r ≠ []) (hend : s.readError = none)
    (hnone : ∀ seen rest, seen ++ rest = s.reads.flatten → check (buf ++ seen) = none) :
    result (readLoop check ended buf s) = .error (.err (ended (buf ++ s.reads.flatten))) := by
  rcases feed_cases check buf s.reads hne with
    ⟨v, seen, unread, -, hv, hseen, -⟩ | ⟨hfeed, -⟩
  · rw [hnone seen _ hseen] at hv
    cases hv
  · unfold readLoop
    rw [hfeed, hend]
    rfl

end Loop

/-! ## The head -/

theorem findHeadEnd_append (q x : Bytes) (stop : Nat) (h : findHeadEnd q = some stop) :
    findHeadEnd (q ++ x) = some stop ∧ stop ≤ q.length := by
  obtain ⟨i, hi, rfl⟩ := Option.map_eq_some_iff.mp h
  refine ⟨?_, findSeq_le _ q i crlf2_ne_nil hi⟩
  unfold findHeadEnd
  rw [findSeq_append _ q x i crlf2_ne_nil hi]
  rfl

/-- What the head loop makes of the bytes up to the end of a head, and the bytes behind it. -/
def headVerdict (head rest : Bytes) : Except (Halt CoreError) (RequestHead × Bytes) :=
  match RequestHead.parse head with
  | .ok parsed => .ok (parsed, rest)
  | .error e => .error (.err (.http e))

theorem headCheck_early (stream q x : Bytes) (stop : Nat) (hstop : findHeadEnd stream = some stop)
    (hle : stop ≤ maxHeadLen) (hq : q ++ x = stream) :
    headCheck q = if stop ≤ q.length then some (headVerdict (stream.take stop) (q.drop stop)) else none := by
  unfold headCheck
  rw [findHeadEnd_part stream q x stop hstop hq]
  by_cases hlen : stop ≤ q.length
  · rw [if_pos hlen, if_pos hlen, ← hq, List.take_append_of_le_length hlen]
    unfold headVerdict
    simp only
    cases RequestHead.parse (q.take stop) <;> rfl
  · rw [if_neg hlen, if_neg hlen]
    exact if_neg (by omega)

theorem parse_large (buf : Bytes) (h : maxHeadLen < buf.length) :
    RequestHead.parse buf = .error .headTooLarge := by
  unfold RequestHead.parse
  rw [if_pos h]
  rfl

theorem headCheck_late (q x : Bytes)
    (hlate : ∀ stop, findHeadEnd (q ++ x) = some stop → maxHeadLen < stop) :
    headCheck q = if q.length > maxHeadLen then some (.error (.err (.http .headTooLarge))) else none := by
  unfold headCheck
  cases hend : findHeadEnd q with
  | none => rfl
  | some stop =>
    obtain ⟨hwhole, hle⟩ := findHeadEnd_append q x stop hend
    have hstop := hlate stop hwhole
    have hparse := parse_large (q.take stop) (by rw [List.length_take]; omega)
    simp only [hparse]
    rw [if_pos (by omega)]

section Head

variable (stream : Bytes) (s : Stream) (hs : Segmented maxRead stream s.reads)
include hs

theorem readHead_early (stop : Nat) (hstop : findHeadEnd stream = some stop) (hle : stop ≤ maxHeadLen) :
    ∃ leftover unread, leftover ++ unread.flatten = stream.drop stop ∧
      result (readHead s) = headVerdict (stream.take stop) leftover ∧
      finalState (readHead s) = { s with reads := unread } ∧ unread <:+ s.reads := by
  have hwithin : stop ≤ stream.length :=
    (findHeadEnd_append stream [] stop hstop).2
  have hcheck := fun q x => headCheck_early stream q x stop hstop hle
  obtain ⟨v, seen, unread, hv, hseen, hsuf, hresult, hfinal⟩ := readLoop_verdict headCheck
    (fun _ => .handshake (ascii "capability closed before a complete request head")) [] s hs.nonempty (by
      rw [List.nil_append, hs.flatten, hcheck stream [] (List.append_nil _), if_pos hwithin]
      simp)
  rw [hs.flatten] at hseen
  rw [List.nil_append, hcheck seen _ hseen] at hv
  split at hv
  · rename_i hlen
    refine ⟨seen.drop stop, unread, ?_, ?_, hfinal, hsuf⟩
    · rw [← hseen, List.drop_append_of_le_length hlen]
    · rw [Option.some.inj hv]
      exact hresult
  · cases hv

theorem readHead_large (hlate : ∀ stop, findHeadEnd stream = some stop → maxHeadLen < stop)
    (hlen : maxHeadLen < stream.length) :
    result (readHead s) = .error (.err (.http .headTooLarge)) := by
  obtain ⟨v, seen, unread, hv, hseen, -, hresult, -⟩ := readLoop_verdict headCheck
    (fun _ => .handshake (ascii "capability closed before a complete request head")) [] s hs.nonempty (by
      rw [List.nil_append, hs.flatten, headCheck_late stream [] (by rwa [List.append_nil]), if_pos hlen]
      simp)
  rw [hs.flatten] at hseen
  rw [← hseen] at hlate
  rw [List.nil_append, headCheck_late seen _ hlate] at hv
  split at hv
  · rw [Option.some.inj hv]
    exact hresult
  · cases hv

theorem readHead_short (hend : s.readError = none) (hnone : findHeadEnd stream = none)
    (hlen : stream.length ≤ maxHeadLen) :
    result (readHead s) =
      .error (.err (.handshake (ascii "capability closed before a complete request head"))) := by
  refine readLoop_starved headCheck _ [] s hs.nonempty hend fun seen rest hseen => ?_
  rw [hs.flatten] at hseen
  rw [List.nil_append, headCheck_late seen rest fun stop hstop => by
    rw [hseen, hnone] at hstop
    cases hstop]
  refine if_neg ?_
  rw [← hseen, List.length_append] at hlen
  omega

end Head

/-! ## The body -/

/-- What a declared length makes of the bytes behind the head. -/
def declaredBody (n limit : UInt64) (rest : Bytes) : Except (Halt CoreError) Bytes :=
  if n > limit then .error (.err (.denied (.tooLarge .request limit)))
  else if n.toNat ≤ rest.length then .ok (rest.take n.toNat)
  else .error (.err (closedAfter rest.length n.toNat))

theorem readBody_length (profile : Profile) (n limit : UInt64) (leftover : Bytes) (s : Stream)
    (hne : ∀ r ∈ s.reads, r ≠ []) (hend : s.readError = none) :
    result (readBody profile (.length n) leftover limit s) =
      declaredBody n limit (leftover ++ s.reads.flatten) := by
  unfold readBody declaredBody
  simp only
  by_cases hlimit : n > limit
  · rw [if_pos hlimit, if_pos hlimit]
    rfl
  · rw [if_neg hlimit, if_neg hlimit]
    by_cases hlen : n.toNat ≤ (leftover ++ s.reads.flatten).length
    · obtain ⟨unread, hrun⟩ := readLength_ok n.toNat (fun buf => closedAfter buf.length n.toNat) leftover s hne hlen
      rw [hrun, if_pos hlen]
      rfl
    · rw [if_neg hlen]
      refine readLoop_starved _ _ leftover s hne hend fun seen rest hseen => ?_
      rw [← hseen] at hlen
      simp only [List.length_append] at hlen
      exact if_pos (by rw [List.length_append]; omega)

/-- **The bytes decide**: what a request is read as, and what its declared body is, does not depend on
the reads that it arrives in. -/
theorem read_by_bytes (profile : Profile) (limit : UInt64) (stream : Bytes) (s : Stream)
    (hs : Segmented maxRead stream s.reads) (hend : s.readError = none) :
    (∀ stop, findHeadEnd stream = some stop → stop ≤ maxHeadLen →
      (∀ e, RequestHead.parse (stream.take stop) = .error e →
        result (readHead s) = .error (.err (.http e))) ∧
      ∀ head, RequestHead.parse (stream.take stop) = .ok head →
        ∃ leftover unread, readHead s = .ok (head, leftover) { s with reads := unread } ∧
          leftover ++ unread.flatten = stream.drop stop ∧
          (head.framing = .none →
            result (readBody profile head.framing leftover limit { s with reads := unread }) = .ok []) ∧
          ∀ n, head.framing = .length n →
            result (readBody profile head.framing leftover limit { s with reads := unread }) =
              declaredBody n limit (stream.drop stop)) ∧
    ((∀ stop, findHeadEnd stream = some stop → maxHeadLen < stop) → maxHeadLen < stream.length →
      result (readHead s) = .error (.err (.http .headTooLarge))) ∧
    (findHeadEnd stream = none → stream.length ≤ maxHeadLen →
      result (readHead s) =
        .error (.err (.handshake (ascii "capability closed before a complete request head")))) := by
  refine ⟨fun stop hstop hle => ?_, readHead_large stream s hs, readHead_short stream s hs hend⟩
  obtain ⟨leftover, unread, hsplit, hresult, hfinal, hsuf⟩ := readHead_early stream s hs stop hstop hle
  constructor
  · intro e herror
    rw [hresult, headVerdict, herror]
  · intro head hhead
    rw [headVerdict, hhead] at hresult
    refine ⟨leftover, unread, run_of_result _ _ _ hresult hfinal, hsplit, fun hnone => ?_, fun n hn => ?_⟩
    · rw [hnone]
      rfl
    · rw [hn, ← hsplit]
      exact readBody_length profile n limit leftover { s with reads := unread }
        (fun r hr => hs.nonempty r (hsuf.mem hr)) hend

def postedHead : Bytes := ascii "POST /x HTTP/1.1\r\nContent-Length: 3\r\n\r\n"

def posted : RequestHead where
  method := ascii "POST"
  target := ascii "/x"
  version := .http11
  headers := [(ascii "Content-Length", ascii "3")]
  framing := .length 3

/-- Four reads, one of them ending within the end of the head, and bytes behind the body. -/
def postedReads : List Bytes :=
  [ascii "POST /x HTTP/1.1\r\nContent-Length: 3\r\n\r", ascii "\na", ascii "b", ascii "cd"]

theorem read_by_bytes_posted :
    ∃ leftover unread, readHead ⟨postedReads, none, none, [], []⟩ =
        .ok (posted, leftover) ⟨unread, none, none, [], []⟩ ∧
      result (readBody .dev posted.framing leftover 3 ⟨unread, none, none, [], []⟩) = .ok (ascii "abc") := by
  have hs : Segmented maxRead (postedHead ++ ascii "abcd") postedReads := by
    refine ⟨by decide, ?_, ?_⟩
    · simp [postedReads, ascii]
    · simp [postedReads, ascii, maxRead]
  have hstop : findHeadEnd (postedHead ++ ascii "abcd") = some postedHead.length := by decide
  have hparse : RequestHead.parse ((postedHead ++ ascii "abcd").take postedHead.length) = .ok posted := by
    decide +kernel
  obtain ⟨leftover, unread, hrun, -, -, hbody⟩ := ((read_by_bytes .dev 3 _ ⟨postedReads, none, none, [], []⟩
    hs rfl).1 _ hstop (by decide)).2 posted hparse
  exact ⟨leftover, unread, hrun, hbody 3 rfl⟩

end Capcurl.Segmentation
