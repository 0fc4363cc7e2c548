import Capcurl.ChunkedBody

/-! # Rejections, and what may still arrive

The decoder rejects a prefix only with everything that goes on from it. The loop around it rejects for a
reason of its own too, the number of bytes that it holds, and a later call might have accepted those.
-/

namespace Capcurl.Rejection

open Lib Http Capcurl.Core Spec Chunked ChunkedBody

/-- No later call would have accepted what is rejected, and it is rejected with one error however it
arrives. -/
structure RejectsFinally (profile : Profile) (limit : UInt64) (s : Stream) (stream : Bytes) : Prop where
  late : ∀ (a : Arrival stream) (e : Halt CoreError), outcome profile limit s a = .error e →
    ∀ n b c, decodeChunked profile (stream.take n) limit ≠ .ok (.complete b c)
  same : ∀ (a a' : Arrival stream) (e e' : Halt CoreError), outcome profile limit s a = .error e →
    outcome profile limit s a' = .error e' → e = e'

section Streams

variable {profile : Profile} {limit : UInt64} {s : Stream} {stream : Bytes}

theorem rejected_append (p x : Bytes) (e : Halt HttpError) (hlen : (p ++ x).length < u64Bound)
    (h : decodeChunked profile p limit = .error e) : decodeChunked profile (p ++ x) limit = .error e := by
  rw [decided_append p x hlen (by unfold Decided; rw [h]; simp), h]

theorem complete_of_take (hlen : stream.length < u64Bound) (n c : Nat) (b : Bytes)
    (h : decodeChunked profile (stream.take n) limit = .ok (.complete b c)) :
    decodeChunked profile stream limit = .ok (.complete b c) := by
  have hwhole := decided_append (stream.take n) (stream.drop n)
    (by rwa [List.take_append_drop]) (decided_of_complete _ _ _ h)
  rwa [List.take_append_drop, h] at hwhole

theorem judged_rejectsFinally (hlen : stream.length < u64Bound) (h : JudgedByBytes profile limit s stream) :
    RejectsFinally profile limit s stream := by
  constructor
  · intro a e ha n b c hc
    have hbody := (encoding_iff hlen b).mpr ⟨c, complete_of_take hlen n c b hc⟩
    rw [(h.2 a b).mpr hbody] at ha
    cases ha
  · intro a a' e e' ha ha'
    rw [h.1 a a', ha'] at ha
    exact (Except.error.inj ha).symm

theorem rejectsFinally_inTime (hlen : stream.length < u64Bound) (h : RejectsFinally profile limit s stream) :
    InTime profile limit stream := by
  intro t ht
  rcases Nat.lt_or_ge (rawBound limit + 1) t with hlate | hearly
  · obtain ⟨a, ha⟩ := exists_refused (s := s) t ht hlate
    have hnever := h.late a _ ha
    rcases Nat.lt_or_ge (rawBound limit + maxRead) t with hlater | hread
    · refine .inr ⟨hlater, ?_⟩
      rintro ⟨e, b, rest, hbody⟩
      obtain ⟨c, hc⟩ := (encoding_iff hlen b).mp ⟨e, rest, hbody⟩
      rw [← List.take_length (l := stream)] at hc
      exact absurd hc (hnever _ _ _)
    · exfalso
      obtain ⟨a', ha'⟩ := exists_verdict (s := s) t ht hlate hread
      obtain ⟨v, hv, hne, hok⟩ := check_decided _ ht.2.1
      rw [hv, Option.some.injEq] at ha'
      cases v with
      | ok b =>
        obtain ⟨c, hc⟩ := (hok b).mp rfl
        exact hnever _ _ _ hc
      | error e =>
        apply hne
        rw [← h.same a a' _ e ha ha'.symm]
        rfl
  · exact .inl hearly

end Streams

/-- **Rejections.** The decoder's are final on every stream. Those of the loop around it are final exactly
on the streams whose verdict is due in time. -/
theorem rejection_final_iff (profile : Profile) (limit : UInt64) (s : Stream) (stream : Bytes)
    (hlen : stream.length < u64Bound) :
    (∀ p x e, p ++ x = stream → decodeChunked profile p limit = .error e →
      decodeChunked profile stream limit = .error e) ∧
    (RejectsFinally profile limit s stream ↔ InTime profile limit stream) := by
  constructor
  · rintro p x e rfl h
    exact rejected_append p x e hlen h
  · exact ⟨rejectsFinally_inTime hlen, fun h => judged_rejectsFinally hlen (inTime_judged hlen h)⟩

theorem rejection_final_iff_bad_size :
    decodeChunked .dev (ascii "zz\r\n0\r\n\r\n") 3 = .error (.err .badChunk) ∧
      RejectsFinally .dev 3 idle (ascii "zz\r\n0\r\n\r\n") := by
  have hfinal := rejection_final_iff .dev 3 idle (ascii "zz\r\n0\r\n\r\n") (by decide)
  exact ⟨hfinal.1 (ascii "zz\r\n") (ascii "0\r\n\r\n") _ (by decide) (by decide),
    hfinal.2.mpr (inTime_of_short (by decide))⟩

/-- Refused where a read ends at byte 4697, and complete 1608 bytes later. -/
theorem small_chunks_refused_early : ¬ RejectsFinally .release 300 idle (smallChunks 300) := by
  intro h
  have hlen := smallChunks_length 300
  have hu64 : u64Bound = 2 ^ 64 := rfl
  have hlate := small_chunks_late
  have hdue := rejectsFinally_inTime (by omega) h _ small_chunks_verdict
  omega

end Capcurl.Rejection
