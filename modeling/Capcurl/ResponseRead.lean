import Capcurl.Core.Exchange
import Capcurl.Segmentation

/-! # What the client reads off a descriptor, whoever wrote it -/

namespace Capcurl.ResponseRead

open Lib Http Policy Capcurl.Core ReadLoop Segmentation

/-- What a declared length makes of the bytes behind the head. -/
def bodyOf (length : Nat) (rest : Bytes) : Except CoreError Bytes :=
  if length ≤ rest.length then .ok (rest.take length) else .error (closedAfter rest.length length)

/-- What the client makes of a response head, and of the bytes behind it. -/
def responseOf (head rest : Bytes) : Except CoreError Response := do
  let (status, reason, headers) ← parseStatusAndHeaders head
  let length ← declaredLength headers
  let body ← bodyOf length rest
  return {
    status, reason, headers, body
    refused := (header headers (ascii "x-capcurl-refused")).isSome }

/-- What the client makes of a stream, in reads of one byte. -/
def clientVerdict (stream : Bytes) : Except CoreError Response :=
  match findHeadEnd stream with
  | some stop =>
    if stop ≤ maxHeadLen + 1 then responseOf (stream.take stop) (stream.drop stop)
    else throw (.http .headTooLarge)
  | none =>
    if stream.length > maxHeadLen then throw (.http .headTooLarge)
    else throw (.handshake (ascii "capability closed before a complete response head"))

/-- The head ends where the client finds it in any reads, or where it never gets to. -/
def Reached (stream : Bytes) : Prop :=
  ∀ stop, findHeadEnd stream = some stop → stop ≤ maxHeadLen + 1 ∨ maxHeadLen + maxRead < stop

/-! ## The head -/

def readResponseHead : StreamM (Nat × Bytes) :=
  readLoop responseHeadCheck
    (fun _ => .handshake (ascii "capability closed before a complete response head")) []

theorem responseHeadCheck_none (q : Bytes) (hend : findHeadEnd q = none) :
    responseHeadCheck q =
      if q.length > maxHeadLen then some (.error (.err (.http .headTooLarge))) else none := by
  unfold responseHeadCheck
  rw [hend]

theorem responseHeadCheck_some (q : Bytes) (stop : Nat) (hend : findHeadEnd q = some stop) :
    responseHeadCheck q = some (.ok (stop, q)) := by
  unfold responseHeadCheck
  rw [hend]

section Head

variable (stream : Bytes) (s : Stream) (hs : Segmented maxRead stream s.reads)
include hs

theorem head_found (stop : Nat) (hstop : findHeadEnd stream = some stop) :
    (∃ seen unread, readResponseHead s = .ok (stop, seen) { s with reads := unread } ∧
      seen ++ unread.flatten = stream ∧ unread <:+ s.reads ∧ stop ≤ seen.length ∧
      stop ≤ maxHeadLen + maxRead) ∨
    result (readResponseHead s) = .error (.err (.http .headTooLarge)) ∧ maxHeadLen + 1 < stop := by
  have hpart := fun q x => findHeadEnd_part stream q x stop hstop
  unfold readResponseHead readLoop
  rcases feed_cases responseHeadCheck [] s.reads hs.nonempty with
    ⟨v, seen, unread, hfeed, hv, hseen, hsuf⟩ | ⟨-, hnone⟩
  · obtain ⟨-, hlast⟩ := feed_last _ _ _ _ _ _ hfeed
    rw [hfeed]
    rw [hs.flatten] at hseen
    rw [List.nil_append] at hv hlast ⊢
    have hend := hpart seen _ hseen
    by_cases hlong : stop ≤ seen.length
    · rw [if_pos hlong] at hend
      rw [responseHeadCheck_some seen stop hend] at hv
      obtain rfl := Option.some.inj hv
      refine .inl ⟨seen, unread, rfl, hseen, hsuf, hlong, ?_⟩
      rcases hlast with rfl | ⟨q, r, hr, rfl, hq⟩
      · exact Nat.le_trans hlong (Nat.zero_le _)
      · -- the buffer before the last read was not too long for it
        have hqend := hpart q (r ++ unread.flatten) (by rw [← List.append_assoc, hseen])
        have hread := hs.bounded r hr
        rw [List.length_append] at hlong
        by_cases hqlong : stop ≤ q.length
        · rw [if_pos hqlong] at hqend
          rw [responseHeadCheck_some q stop hqend] at hq
          cases hq
        · rw [if_neg hqlong] at hqend
          rw [responseHeadCheck_none q hqend] at hq
          split at hq
          · cases hq
          · omega
    · rw [if_neg hlong] at hend
      rw [responseHeadCheck_none seen hend] at hv
      split at hv
      · obtain rfl := Option.some.inj hv
        exact .inr ⟨rfl, by omega⟩
      · cases hv
  · rw [hs.flatten, List.nil_append, responseHeadCheck_some stream stop hstop] at hnone
    cases hnone

theorem head_missing (hend : s.readError = none) (hnone : findHeadEnd stream = none) :
    result (readResponseHead s) = .error (.err (
      if stream.length > maxHeadLen then .http .headTooLarge
      else .handshake (ascii "capability closed before a complete response head"))) := by
  have hpart : ∀ q x, q ++ x = stream → findHeadEnd q = none := by
    intro q x hq
    cases hfound : findHeadEnd q with
    | none => rfl
    | some stop =>
      have hwhole := (findHeadEnd_append q x stop hfound).1
      rw [hq, hnone] at hwhole
      cases hwhole
  unfold readResponseHead
  by_cases hlong : stream.length > maxHeadLen
  · obtain ⟨v, seen, unread, hv, hseen, -, hresult, -⟩ := readLoop_verdict responseHeadCheck
      (fun _ => .handshake (ascii "capability closed before a complete response head")) [] s hs.nonempty (by
        rw [List.nil_append, hs.flatten, responseHeadCheck_none stream hnone, if_pos hlong]
        simp)
    rw [hs.flatten] at hseen
    rw [List.nil_append, responseHeadCheck_none seen (hpart seen _ hseen)] at hv
    rw [hresult, if_pos hlong]
    split at hv
    · exact (Option.some.inj hv).symm
    · cases hv
  · rw [if_neg hlong]
    refine readLoop_starved responseHeadCheck _ [] s hs.nonempty hend fun seen rest hseen => ?_
    rw [hs.flatten] at hseen
    rw [List.nil_append, responseHeadCheck_none seen (hpart seen rest hseen)]
    refine if_neg ?_
    rw [← hseen, List.length_append] at hlong
    omega

end Head

/-! ## The response -/

/-- The result of `r` as that of code that does not panic. -/
def settled {α : Type} (r : Except CoreError α) : Except (Halt CoreError) α := r.mapError .err

theorem settled_injective {α : Type} {r r' : Except CoreError α} (h : settled r = settled r') : r = r' := by
  cases r <;> cases r' <;> simp_all [settled, Except.mapError]

theorem readLength_result (length : Nat) (leftover : Bytes) (s : Stream) (hne : ∀ r ∈ s.reads, r ≠ [])
    (hend : s.readError = none) :
    result (readLoop (lengthCheck length) (fun body => closedAfter body.length length) leftover s) =
      settled (bodyOf length (leftover ++ s.reads.flatten)) := by
  unfold bodyOf
  by_cases hlen : length ≤ (leftover ++ s.reads.flatten).length
  · obtain ⟨unread, hrun⟩ :=
      readLength_ok length (fun body => closedAfter body.length length) leftover s hne hlen
    rw [hrun, if_pos hlen]
    rfl
  · rw [if_neg hlen]
    refine readLoop_starved _ _ leftover s hne hend fun seen rest hseen => if_pos ?_
    rw [← hseen] at hlen
    simp only [List.length_append] at hlen ⊢
    omega

theorem readResponse_head (s s' : Stream) (stop : Nat) (seen : Bytes)
    (hhead : readResponseHead s = .ok (stop, seen) s') (hne : ∀ r ∈ s'.reads, r ≠ [])
    (hend : s'.readError = none) :
    result (readResponse s) =
      settled (responseOf (seen.take stop) (seen.drop stop ++ s'.reads.flatten)) := by
  unfold readResponseHead at hhead
  unfold readResponse responseOf
  rw [run_bind_ok _ _ _ _ _ hhead]
  simp only
  cases parseStatusAndHeaders (seen.take stop) with
  | error e => rfl
  | ok parsed =>
    rw [ofExcept_ok_bind, ok_bind]
    cases declaredLength parsed.2.2 with
    | error e => rfl
    | ok length =>
      have hbody := readLength_result length (seen.drop stop) s' hne hend
      refine (result_map _ _ s').trans ?_
      rw [hbody, ok_bind]
      cases bodyOf length (seen.drop stop ++ s'.reads.flatten) <;> rfl

theorem readResponse_failed (s : Stream) (e : Halt CoreError) (h : result (readResponseHead s) = .error e) :
    result (readResponse s) = .error e := by
  cases hrun : readResponseHead s with
  | ok found s' =>
    rw [hrun] at h
    cases h
  | error e' s' =>
    rw [hrun] at h
    unfold readResponseHead at hrun
    unfold readResponse
    rw [run_bind_error _ _ _ _ _ hrun]
    cases h
    rfl

theorem response_found (stream : Bytes) (s : Stream) (hs : Segmented maxRead stream s.reads)
    (hend : s.readError = none) (stop : Nat) (hstop : findHeadEnd stream = some stop) :
    (result (readResponse s) = settled (responseOf (stream.take stop) (stream.drop stop)) ∧
      stop ≤ maxHeadLen + maxRead) ∨
    result (readResponse s) = .error (.err (.http .headTooLarge)) ∧ maxHeadLen + 1 < stop := by
  rcases head_found stream s hs stop hstop with
    ⟨seen, unread, hhead, hseen, hsuf, hlong, hmax⟩ | ⟨hresult, hlate⟩
  · refine .inl ⟨?_, hmax⟩
    rw [readResponse_head s _ stop seen hhead (fun r hr => hs.nonempty r (hsuf.mem hr)) hend, ← hseen,
      List.take_append_of_le_length hlong, List.drop_append_of_le_length hlong]
  · refine .inr ⟨?_, hlate⟩
    exact readResponse_failed s _ hresult

/-! ## Reads that decide -/

section Window

variable (stream : Bytes) (stop : Nat) (hstop : findHeadEnd stream = some stop)
include hstop

theorem check_before (n : Nat) (hn : n < stop) :
    responseHeadCheck (stream.take n) =
      if n > maxHeadLen then some (.error (.err (.http .headTooLarge))) else none := by
  have hwithin := (findHeadEnd_append stream [] stop hstop).2
  have hlen : (stream.take n).length = n := by
    rw [List.length_take]
    omega
  have hend := findHeadEnd_part stream _ _ stop hstop (List.take_append_drop n stream)
  rw [hlen, if_neg (by omega)] at hend
  rw [responseHeadCheck_none _ hend, hlen]

theorem head_read_to (xs ys : List Bytes) (n : Nat) (hxs : Segmented maxRead (stream.take n) xs)
    (hn : n < stop) (hle : n ≤ maxHeadLen + 1) :
    feed responseHeadCheck [] (xs ++ ys) = feed responseHeadCheck (stream.take n) ys := by
  have hwithin := (findHeadEnd_append stream [] stop hstop).2
  have hlen : (stream.take n).length = n := by
    rw [List.length_take]
    omega
  have hfeed := feed_append responseHeadCheck [] xs ys hxs.nonempty fun k hk => by
    rw [hxs.flatten, hlen] at hk
    rw [hxs.flatten, List.nil_append, List.take_take, Nat.min_eq_left (by omega),
      check_before stream stop hstop k (by omega), if_neg (by omega)]
  rw [hfeed, hxs.flatten, List.nil_append]

theorem read_over (hlate : maxHeadLen < stop) (hmax : stop ≤ maxHeadLen + maxRead) :
    ∃ reads, Segmented maxRead stream reads ∧
      ∀ s : Stream, s.reads = reads → s.readError = none →
        result (readResponse s) = settled (responseOf (stream.take stop) (stream.drop stop)) := by
  have hwithin := (findHeadEnd_append stream [] stop hstop).2
  obtain ⟨xs, hxs⟩ := exists_segmented maxRead (by decide) (stream.take maxHeadLen)
  obtain ⟨ys, hys⟩ := exists_segmented maxRead (by decide) (stream.drop (maxHeadLen + maxRead))
  have hne : (stream.drop maxHeadLen).take maxRead ≠ [] := by
    have hpos : 0 < maxRead := by decide
    apply List.ne_nil_of_length_pos
    rw [List.length_take, List.length_drop]
    omega
  have hread := segmented_singleton maxRead _ hne (List.length_take_le maxRead (stream.drop maxHeadLen))
  have hseg := segmented_append maxRead _ _ _ _ hxs (segmented_append maxRead _ _ _ _ hread hys)
  rw [← List.drop_drop, List.take_append_drop, List.take_append_drop] at hseg
  refine ⟨_, hseg, fun s hreads hend => ?_⟩
  have hbuf : stream.take maxHeadLen ++ (stream.drop maxHeadLen).take maxRead =
      stream.take (maxHeadLen + maxRead) := (List.take_add).symm
  have hlong : stop ≤ (stream.take (maxHeadLen + maxRead)).length := by
    rw [List.length_take]
    omega
  have hfound := findHeadEnd_part stream _ _ stop hstop (List.take_append_drop (maxHeadLen + maxRead) stream)
  rw [if_pos hlong] at hfound
  have hhead : readResponseHead s =
      .ok (stop, stream.take (maxHeadLen + maxRead)) { s with reads := ys } := by
    unfold readResponseHead readLoop
    rw [hreads, head_read_to stream stop hstop xs _ maxHeadLen hxs hlate (Nat.le_succ _),
      List.singleton_append, feed_read _ _ _ _ (check_before stream stop hstop _ hlate) hne, hbuf,
      feed_stop _ _ _ _ (responseHeadCheck_some _ stop hfound)]
  rw [readResponse_head s _ stop _ hhead hys.nonempty hend, List.take_take, Nat.min_eq_left hmax,
    ← List.drop_append_of_le_length hlong, hys.flatten, List.take_append_drop]

theorem read_short (hlate : maxHeadLen + 1 < stop) :
    ∃ reads, Segmented maxRead stream reads ∧
      ∀ s : Stream, s.reads = reads → result (readResponse s) = .error (.err (.http .headTooLarge)) := by
  obtain ⟨xs, hxs⟩ := exists_segmented maxRead (by decide) (stream.take (maxHeadLen + 1))
  obtain ⟨ys, hys⟩ := exists_segmented maxRead (by decide) (stream.drop (maxHeadLen + 1))
  have hseg := segmented_append maxRead _ _ _ _ hxs hys
  rw [List.take_append_drop] at hseg
  refine ⟨_, hseg, fun s hreads => readResponse_failed s _ ?_⟩
  have hcheck := check_before stream stop hstop _ hlate
  rw [if_pos (Nat.lt_succ_self _)] at hcheck
  unfold readResponseHead readLoop
  rw [hreads, head_read_to stream stop hstop xs ys _ hxs hlate (Nat.le_refl _), feed_stop _ _ _ _ hcheck]
  rfl

end Window

theorem parseFields_error (lines : List Text) (headers : List Header) (e : CoreError)
    (h : parseFields lines headers = .error e) : e = .http .badHeader := by
  induction lines generalizing headers with
  | nil => cases h
  | cons line lines ih =>
    unfold parseFields at h
    split at h
    · cases h
    · split at h
      · exact (Except.error.inj h).symm
      · exact ih _ h

theorem parseStatusAndHeaders_error (head : Bytes) (e : CoreError)
    (h : parseStatusAndHeaders head = .error e) : e = .http .badHeader ∨ e = .http .badVersion := by
  unfold parseStatusAndHeaders at h
  split at h
  · exact .inl (Except.error.inj h).symm
  · split at h
    · exact .inl (Except.error.inj h).symm
    · rename_i statusLine lines _
      simp only at h
      split at h
      · exact .inr (Except.error.inj h).symm
      · split at h
        · exact .inl (Except.error.inj h).symm
        · split at h
          · rw [pure_bind] at h
            rcases (bind_eq_error _ _ _).mp h with hfields | ⟨headers, -, hdone⟩
            · exact .inl (parseFields_error _ _ _ hfields)
            · cases hdone
          · exact .inl (Except.error.inj h).symm

theorem responseOf_ne (head rest : Bytes) :
    responseOf head rest ≠ .error (.http .headTooLarge) := by
  intro h
  unfold responseOf at h
  cases hparse : parseStatusAndHeaders head with
  | error e =>
    rw [hparse, error_bind, Except.error.injEq] at h
    rcases parseStatusAndHeaders_error head e hparse with rfl | rfl <;> cases h
  | ok parsed =>
    obtain ⟨status, reason, headers⟩ := parsed
    rw [hparse, ok_bind] at h
    simp only at h
    cases hlength : declaredLength headers with
    | error e =>
      rw [hlength, error_bind, Except.error.injEq] at h
      unfold declaredLength at hlength
      subst h
      split at hlength
      · cases hlength
      · split at hlength <;> cases hlength
    | ok length =>
      rw [hlength, ok_bind, bodyOf] at h
      split at h <;> cases h

/-- **The client's verdict**: on any stream, whoever wrote it, the verdict is what the client comes to in
some reads. It is what the client comes to in all of them unless the head ends within one read behind the
limit. -/
theorem response_by_bytes (stream : Bytes) :
    (∃ reads, Segmented maxRead stream reads ∧
      ∀ s : Stream, s.reads = reads → s.readError = none →
        result (readResponse s) = settled (clientVerdict stream)) ∧
    ((∀ s : Stream, Segmented maxRead stream s.reads → s.readError = none →
        result (readResponse s) = settled (clientVerdict stream)) ↔ Reached stream) := by
  obtain ⟨anyReads, hany⟩ := exists_segmented maxRead (by decide) stream
  cases hfound : findHeadEnd stream with
  | none =>
    have hall : ∀ s : Stream, Segmented maxRead stream s.reads → s.readError = none →
        result (readResponse s) = settled (clientVerdict stream) := by
      intro s hs hend
      rw [readResponse_failed s _ (head_missing stream s hs hend hfound), clientVerdict, hfound]
      simp only
      split <;> rfl
    have hreached : Reached stream := by
      intro stop hstop
      rw [hfound] at hstop
      cases hstop
    exact ⟨⟨anyReads, hany, fun s hreads => hall s (hreads ▸ hany)⟩, fun _ => hreached, fun _ => hall⟩
  | some stop =>
    have hverdict : clientVerdict stream =
        if stop ≤ maxHeadLen + 1 then responseOf (stream.take stop) (stream.drop stop)
        else .error (.http .headTooLarge) := by
      unfold clientVerdict
      rw [hfound]
      rfl
    refine ⟨?_, fun hall => ?_, fun hreached s hs hend => ?_⟩
    · rw [hverdict]
      by_cases hearly : stop ≤ maxHeadLen + 1
      · rw [if_pos hearly]
        refine ⟨anyReads, hany, fun s hreads hend => ?_⟩
        rcases response_found stream s (hreads ▸ hany) hend stop hfound with ⟨hresult, -⟩ | ⟨-, hlate⟩
        · exact hresult
        · omega
      · rw [if_neg hearly]
        obtain ⟨reads, hs, hrun⟩ := read_short stream stop hfound (Nat.not_le.mp hearly)
        exact ⟨reads, hs, fun s hreads _ => hrun s hreads⟩
    · intro stop' hstop'
      obtain rfl : stop = stop' := Option.some.inj (hfound.symm.trans hstop')
      by_contra hwindow
      rw [not_or, Nat.not_le, Nat.not_lt] at hwindow
      obtain ⟨reads, hs, hrun⟩ := read_over stream stop hfound (Nat.lt_of_succ_lt hwindow.1) hwindow.2
      have hone := hrun ⟨reads, none, none, [], []⟩ rfl rfl
      rw [hall ⟨reads, none, none, [], []⟩ hs rfl, hverdict, if_neg (Nat.not_le.mpr hwindow.1)] at hone
      exact responseOf_ne _ _ (settled_injective hone).symm
    · rw [hverdict]
      rcases response_found stream s hs hend stop hfound with ⟨hresult, hmax⟩ | ⟨hresult, hlate⟩
      · rw [hresult, if_pos ((hreached stop hfound).resolve_right (Nat.not_lt.mpr hmax))]
      · rw [hresult, if_neg (Nat.not_le.mpr hlate)]
        rfl

end Capcurl.ResponseRead
