import Capcurl.Chunked
import Capcurl.Lib.Runs

/-!
# A chunked body is judged by its bytes, or by how they arrive

The decoder's verdict is a matter of the bytes. The loop around it also counts the bytes it holds, and
it counts them between reads.
-/

namespace Capcurl.ChunkedBody

open Lib Http Capcurl.Core Spec Chunked

/-! ## Arrivals -/

/-- How the bytes after a head arrive: some with the head, in what was left of its last read, and the
rest in reads of their own. -/
structure Arrival (stream : Bytes) where
  leftover : Bytes
  reads : List Bytes
  delivers : leftover ++ reads.flatten = stream
  short : leftover.length < maxRead
  nonempty : ∀ r ∈ reads, r ≠ []
  bounded : ∀ r ∈ reads, r.length ≤ maxRead

def outcome (profile : Profile) (limit : UInt64) (s : Stream) {stream : Bytes}
    (a : Arrival stream) : Except (Halt CoreError) Bytes :=
  result (readBody profile .chunked a.leftover limit { s with reads := a.reads })

/-- Every arrival has the same outcome, and it is a body exactly when the stream begins with that
body's encoding. -/
def JudgedByBytes (profile : Profile) (limit : UInt64) (s : Stream) (stream : Bytes) : Prop :=
  (∀ a a' : Arrival stream, outcome profile limit s a = outcome profile limit s a') ∧
  ∀ (a : Arrival stream) (body : Bytes), outcome profile limit s a = .ok body ↔
    ∃ e rest, stream = e ++ rest ∧ Encodes e body ∧ body.length ≤ limit.toNat

/-! ## Verdicts -/

section Verdicts

variable (profile : Profile) (limit : UInt64)

def Decided (input : Bytes) : Prop := decodeChunked profile input limit ≠ .ok .needMore

/-- The first `t` bytes are the fewest that are decided. -/
def FirstVerdict (stream : Bytes) (t : Nat) : Prop :=
  t ≤ stream.length ∧ Decided profile limit (stream.take t) ∧
    ∀ n < t, ¬ Decided profile limit (stream.take n)

/-- The verdict is due before the loop would give up; or so late that it always gives up, on a stream
that does not begin with a body either. -/
def InTime (stream : Bytes) : Prop :=
  ∀ t, FirstVerdict profile limit stream t →
    t ≤ rawBound limit + 1 ∨
      (rawBound limit + maxRead < t ∧
        ¬ ∃ e b rest, stream = e ++ rest ∧ Encodes e b ∧ b.length ≤ limit.toNat)

def tooLarge : Except (Halt CoreError) Bytes := .error (.err (.denied (.tooLarge .request limit)))

variable {profile limit}

theorem decided_of_complete (q b : Bytes) (c : Nat)
    (h : decodeChunked profile q limit = .ok (.complete b c)) : Decided profile limit q := by
  unfold Decided
  rw [h]
  simp

theorem decided_append (q x : Bytes) (hlen : (q ++ x).length < u64Bound)
    (h : Decided profile limit q) :
    decodeChunked profile (q ++ x) limit = decodeChunked profile q limit :=
  (decode_append profile limit q x hlen).resolve_left h

theorem decided_more (q x : Bytes) (hlen : (q ++ x).length < u64Bound)
    (h : Decided profile limit q) : Decided profile limit (q ++ x) := by
  unfold Decided
  rw [decided_append q x hlen h]
  exact h

theorem check_undecided (q : Bytes) (h : ¬ Decided profile limit q) :
    chunkedCheck profile limit q =
      if q.length > rawBound limit then some (tooLarge limit) else none := by
  unfold Decided at h
  rw [not_not] at h
  unfold chunkedCheck
  rw [h]
  rfl

theorem check_decided (q : Bytes) (h : Decided profile limit q) :
    ∃ v, chunkedCheck profile limit q = some v ∧ v ≠ tooLarge limit ∧
      ∀ b, v = .ok b ↔ ∃ c, decodeChunked profile q limit = .ok (.complete b c) := by
  unfold Decided at h
  unfold chunkedCheck
  cases hd : decodeChunked profile q limit with
  | ok o =>
    cases o with
    | complete body c =>
      refine ⟨_, rfl, by simp [tooLarge], fun b => ?_⟩
      simp
    | needMore => exact absurd hd h
  | error e =>
    cases e with
    | err e => exact ⟨_, rfl, by simp [tooLarge], by simp⟩
    | panic => exact ⟨_, rfl, by simp [tooLarge], by simp⟩
    | fuel => exact ⟨_, rfl, by simp [tooLarge], by simp⟩

theorem check_append (q x : Bytes) (hlen : (q ++ x).length < u64Bound) (h : Decided profile limit q) :
    chunkedCheck profile limit (q ++ x) = chunkedCheck profile limit q := by
  have hsame := decided_append q x hlen h
  obtain ⟨v, hv, -, -⟩ := check_decided q h
  unfold Decided at h
  unfold chunkedCheck
  rw [hsame]
  cases hd : decodeChunked profile q limit with
  | ok o =>
    cases o with
    | complete body c => rfl
    | needMore => exact absurd hd h
  | error e => cases e <;> rfl

theorem first_verdict (stream : Bytes) (h : Decided profile limit stream) :
    ∃ t, FirstVerdict profile limit stream t := by
  classical
  have hex : ∃ n, Decided profile limit (stream.take n) := ⟨stream.length, by rwa [List.take_length]⟩
  refine ⟨Nat.find hex, ?_, Nat.find_spec hex, fun n hn => Nat.find_min hex hn⟩
  by_contra hlt
  have hmin := Nat.find_min hex (Nat.lt_of_not_le hlt)
  rw [List.take_length] at hmin
  exact hmin h

theorem decided_iff (stream q x : Bytes) (t : Nat) (hlen : stream.length < u64Bound)
    (ht : FirstVerdict profile limit stream t) (hq : q ++ x = stream) :
    Decided profile limit q ↔ t ≤ q.length := by
  subst hq
  constructor
  · intro h
    by_contra hlt
    have hnot := ht.2.2 q.length (Nat.lt_of_not_le hlt)
    rw [List.take_left] at hnot
    exact hnot h
  · intro hle
    have hdec := ht.2.1
    rw [List.take_append_of_le_length hle] at hdec
    have hq : q.take t ++ q.drop t = q := List.take_append_drop t q
    rw [← hq]
    refine decided_more _ _ ?_ hdec
    rw [hq]
    rw [List.length_append] at hlen
    omega

end Verdicts

/-! ## Outcomes -/

section Outcomes

variable {profile : Profile} {limit : UInt64} {s : Stream} {stream : Bytes}

def ended (s : Stream) : Except (Halt CoreError) Bytes :=
  match s.readError with
  | none => .error (.err (.http .badChunk))
  | some e => .error (.err (.io e))

theorem outcome_cases (a : Arrival stream) :
    (∃ q x v, q ++ x = stream ∧ chunkedCheck profile limit q = some v ∧
      outcome profile limit s a = v ∧
      (q.length < maxRead ∨ ∃ q' r, q = q' ++ r ∧ r.length ≤ maxRead ∧
        chunkedCheck profile limit q' = none)) ∨
    (chunkedCheck profile limit stream = none ∧ outcome profile limit s a = ended s) := by
  have hrun : ∀ v q unread, feed (chunkedCheck profile limit) a.leftover a.reads = .stopped v q unread →
      outcome profile limit s a = v := by
    intro v q unread h
    cases v <;> simp [outcome, readBody, readLoop, h, result]
  rcases feed_cases (chunkedCheck profile limit) a.leftover a.reads a.nonempty with
    ⟨v, seen, unread, hfeed, hv, hseen, -⟩ | ⟨hfeed, hnone⟩
  · refine .inl ⟨a.leftover ++ seen, unread.flatten, v, ?_, hv, hrun _ _ _ hfeed, ?_⟩
    · rw [List.append_assoc, hseen, a.delivers]
    · obtain ⟨-, hstop | ⟨q', r, hr, hstop, hq'⟩⟩ := feed_last _ _ _ _ _ _ hfeed
      · rw [hstop]
        exact .inl a.short
      · exact .inr ⟨q', r, hstop, a.bounded r hr, hq'⟩
  · rw [a.delivers] at hfeed hnone
    refine .inr ⟨hnone, ?_⟩
    cases he : s.readError <;> simp [outcome, readBody, readLoop, hfeed, result, ended, he]

theorem outcome_early (t : Nat) (hlen : stream.length < u64Bound)
    (ht : FirstVerdict profile limit stream t) (hearly : t ≤ rawBound limit + 1)
    (a : Arrival stream) : chunkedCheck profile limit stream = some (outcome profile limit s a) := by
  rcases outcome_cases (s := s) a with ⟨q, x, v, hq, hv, hout, -⟩ | ⟨hnone, -⟩
  · have hdec : Decided profile limit q := by
      rw [decided_iff stream q x t hlen ht hq]
      by_contra hlt
      have hnot := check_undecided q (fun hd => hlt ((decided_iff stream q x t hlen ht hq).mp hd))
      rw [hv, if_neg (by omega)] at hnot
      cases hnot
    rw [hout, ← hv, ← hq]
    exact check_append q x (by rw [hq]; exact hlen) hdec
  · have hdec : Decided profile limit stream :=
      (decided_iff stream stream [] t hlen ht (List.append_nil _)).mpr ht.1
    obtain ⟨v, hv, -⟩ := check_decided stream hdec
    rw [hnone] at hv
    cases hv

theorem outcome_never (hlen : stream.length < u64Bound) (hno : ¬ Decided profile limit stream)
    (a : Arrival stream) :
    outcome profile limit s a = if stream.length > rawBound limit then tooLarge limit else ended s := by
  rcases outcome_cases (s := s) a with ⟨q, x, v, hq, hv, hout, -⟩ | ⟨hnone, hout⟩
  · have hq' : ¬ Decided profile limit q := fun h =>
      hno (hq ▸ decided_more q x (by rw [hq]; exact hlen) h)
    rw [check_undecided q hq'] at hv
    split at hv
    · rename_i hlarge
      rw [if_pos (by rw [← hq, List.length_append]; omega), hout]
      exact (Option.some.inj hv).symm
    · cases hv
  · rw [check_undecided stream hno] at hnone
    split at hnone
    · cases hnone
    · rename_i hsmall
      rw [if_neg hsmall, hout]

theorem outcome_late (t : Nat) (hlen : stream.length < u64Bound)
    (ht : FirstVerdict profile limit stream t) (hlate : rawBound limit + maxRead < t)
    (a : Arrival stream) : outcome profile limit s a = tooLarge limit := by
  rcases outcome_cases (s := s) a with ⟨q, x, v, hq, hv, hout, hlast⟩ | ⟨hnone, -⟩
  · have hq' : ¬ Decided profile limit q := by
      rw [decided_iff stream q x t hlen ht hq]
      rcases hlast with hshort | ⟨q', r, rfl, hr, hq'⟩
      · omega
      · have hund : ¬ Decided profile limit q' := by
          intro hd
          obtain ⟨v', hv', -⟩ := check_decided q' hd
          rw [hq'] at hv'
          cases hv'
        rw [check_undecided q' hund] at hq'
        split at hq'
        · cases hq'
        · rw [List.length_append]
          omega
    rw [check_undecided q hq'] at hv
    split at hv
    · rw [hout]
      exact (Option.some.inj hv).symm
    · cases hv
  · have hdec : Decided profile limit stream :=
      (decided_iff stream stream [] t hlen ht (List.append_nil _)).mpr ht.1
    obtain ⟨v, hv, -⟩ := check_decided stream hdec
    rw [hnone] at hv
    cases hv

theorem exists_arrival (n : Nat) (next : List Bytes)
    (hnext : Segmented maxRead (stream.drop n) next) :
    ∃ (a : Arrival stream) (first : List Bytes), a.leftover = [] ∧ a.reads = first ++ next ∧
      first.flatten = stream.take n ∧ ∀ r ∈ first, r ≠ [] := by
  obtain ⟨first, hfirst⟩ := exists_segmented maxRead (by decide) (stream.take n)
  have hall := segmented_append _ _ _ _ _ hfirst hnext
  rw [List.take_append_drop] at hall
  exact ⟨⟨[], first ++ next, hall.flatten, by decide, hall.nonempty, hall.bounded⟩, first, rfl, rfl,
    hfirst.flatten, hfirst.nonempty⟩

theorem outcome_boundary (n : Nat) (hn : n ≤ stream.length) (a : Arrival stream)
    (first next : List Bytes) (hleft : a.leftover = []) (hreads : a.reads = first ++ next)
    (hfirst : first.flatten = stream.take n) (hne : ∀ r ∈ first, r ≠ [])
    (hquiet : ∀ m < n, chunkedCheck profile limit (stream.take m) = none) (v : Except (Halt CoreError) Bytes)
    (unread : List Bytes) (q : Bytes)
    (hv : feed (chunkedCheck profile limit) (stream.take n) next = .stopped v q unread) :
    outcome profile limit s a = v := by
  have hfeed : feed (chunkedCheck profile limit) a.leftover a.reads = .stopped v q unread := by
    rw [hleft, hreads, feed_append _ _ _ _ hne, hfirst, List.nil_append, hv]
    intro m hm
    rw [hfirst, List.length_take] at hm
    rw [hfirst, List.nil_append, List.take_take, Nat.min_eq_left (by omega)]
    exact hquiet m (by omega)
  cases v <;> simp [outcome, readBody, readLoop, hfeed, result]

theorem quiet_before (t : Nat) (ht : FirstVerdict profile limit stream t) (m : Nat) (hm : m < t)
    (hroom : m ≤ rawBound limit) : chunkedCheck profile limit (stream.take m) = none := by
  rw [check_undecided _ (ht.2.2 m hm), if_neg]
  rw [List.length_take]
  omega

theorem exists_refused (t : Nat) (ht : FirstVerdict profile limit stream t)
    (hlate : rawBound limit + 1 < t) :
    ∃ a : Arrival stream, outcome profile limit s a = tooLarge limit := by
  have hle := ht.1
  obtain ⟨next, hnext⟩ := exists_segmented maxRead (by decide) (stream.drop (rawBound limit + 1))
  obtain ⟨a, first, hleft, hreads, hfirst, hne⟩ := exists_arrival _ next hnext
  refine ⟨a, outcome_boundary _ (by omega) a first next hleft hreads hfirst hne ?_ _ next
    (stream.take (rawBound limit + 1)) ?_⟩
  · intro m hm
    exact quiet_before t ht m (by omega) (by omega)
  · apply feed_stop
    rw [check_undecided _ (ht.2.2 _ hlate), if_pos]
    rw [List.length_take]
    omega

theorem exists_verdict (t : Nat) (ht : FirstVerdict profile limit stream t)
    (hlate : rawBound limit + 1 < t) (hread : t ≤ rawBound limit + maxRead) :
    ∃ a : Arrival stream, chunkedCheck profile limit (stream.take t) = some (outcome profile limit s a) := by
  have hle := ht.1
  obtain ⟨v, hv, -, -⟩ := check_decided _ ht.2.1
  obtain ⟨rest, hrest⟩ := exists_segmented maxRead (by decide) (stream.drop t)
  have hjump : (stream.drop (rawBound limit)).take (t - rawBound limit) ≠ [] := by
    intro he
    have := congrArg List.length he
    rw [List.length_take, List.length_drop, List.length_nil] at this
    omega
  have hreach : stream.take (rawBound limit) ++
      (stream.drop (rawBound limit)).take (t - rawBound limit) = stream.take t := by
    rw [← List.take_add, Nat.add_sub_cancel' (by omega)]
  have hnext : Segmented maxRead (stream.drop (rawBound limit))
      ([(stream.drop (rawBound limit)).take (t - rawBound limit)] ++ rest) := by
    have hone := segmented_singleton maxRead _ hjump (by rw [List.length_take]; omega)
    have hall := segmented_append _ _ _ _ _ hone hrest
    have hcut : (stream.drop (rawBound limit)).take (t - rawBound limit) ++ stream.drop t =
        stream.drop (rawBound limit) := by
      have hdrop : stream.drop t = (stream.drop (rawBound limit)).drop (t - rawBound limit) := by
        rw [List.drop_drop, Nat.add_sub_cancel' (by omega)]
      rw [hdrop, List.take_append_drop]
    rwa [hcut] at hall
  obtain ⟨a, first, hleft, hreads, hfirst, hne⟩ := exists_arrival _ _ hnext
  have hout : outcome profile limit s a = v := by
    refine outcome_boundary _ (by omega) a first _ hleft hreads hfirst hne ?_ v rest (stream.take t) ?_
    · intro m hm
      exact quiet_before t ht m (by omega) (by omega)
    · have hquiet := quiet_before t ht (rawBound limit) (by omega) (Nat.le_refl _)
      rw [List.singleton_append, feed_read _ _ _ _ hquiet hjump, hreach, feed_stop _ _ _ _ hv]
  exact ⟨a, by rw [hout, hv]⟩

theorem not_judged (t : Nat) (ht : FirstVerdict profile limit stream t)
    (hlate : rawBound limit + 1 < t) (hread : t ≤ rawBound limit + maxRead) :
    ¬ JudgedByBytes profile limit s stream := by
  intro hjudged
  obtain ⟨a, ha⟩ := exists_refused (s := s) t ht hlate
  obtain ⟨a', ha'⟩ := exists_verdict (s := s) t ht hlate hread
  obtain ⟨v, hv, hne, -⟩ := check_decided _ ht.2.1
  rw [hv, Option.some.injEq, hjudged.1 a' a, ha] at ha'
  exact hne ha'

theorem encoding_iff (hlen : stream.length < u64Bound) (b : Bytes) :
    (∃ e rest, stream = e ++ rest ∧ Encodes e b ∧ b.length ≤ limit.toNat) ↔
      ∃ c, decodeChunked profile stream limit = .ok (.complete b c) := by
  constructor
  · rintro ⟨e, rest, rfl, he, hb⟩
    exact ⟨_, decode_encodes profile limit e b rest he hlen hb⟩
  · rintro ⟨c, hc⟩
    obtain ⟨e, rest, hstream, he, hb, -⟩ := decode_complete profile limit stream hlen b c hc
    exact ⟨e, rest, hstream, he, hb⟩

theorem inTime_of_short (h : stream.length ≤ rawBound limit + 1) : InTime profile limit stream := by
  intro t ht
  have hle := ht.1
  exact .inl (by omega)

theorem judged_inTime (h : JudgedByBytes profile limit s stream) :
    InTime profile limit stream := by
  intro t ht
  rcases Nat.lt_or_ge (rawBound limit + 1) t with hlate | hearly
  · rcases Nat.lt_or_ge (rawBound limit + maxRead) t with hlater | hread
    · refine .inr ⟨hlater, ?_⟩
      rintro ⟨e, b, rest, hbody⟩
      obtain ⟨a, ha⟩ := exists_refused (s := s) t ht hlate
      have hok := (h.2 a b).mpr ⟨e, rest, hbody⟩
      rw [ha] at hok
      cases hok
    · exact absurd h (not_judged t ht hlate hread)
  · exact .inl hearly

theorem inTime_judged (hlen : stream.length < u64Bound) (h : InTime profile limit stream) :
    JudgedByBytes profile limit s stream := by
  by_cases hdec : Decided profile limit stream
  · obtain ⟨t, ht⟩ := first_verdict stream hdec
    rcases h t ht with hearly | ⟨hlate, hno⟩
    · have hout := outcome_early (s := s) t hlen ht hearly
      obtain ⟨v, hv, -, hok⟩ := check_decided stream hdec
      have hsame : ∀ a, outcome profile limit s a = v := fun a =>
        Option.some.inj ((hout a).symm.trans hv)
      refine ⟨fun a a' => (hsame a).trans (hsame a').symm, fun a b => ?_⟩
      rw [hsame a, hok b, encoding_iff hlen]
    · have hout := outcome_late (s := s) t hlen ht hlate
      refine ⟨fun a a' => (hout a).trans (hout a').symm, fun a b => ?_⟩
      rw [hout a]
      refine iff_of_false (by simp [tooLarge]) ?_
      rintro ⟨e, rest, hbody⟩
      exact hno ⟨e, b, rest, hbody⟩
  · have hout := outcome_never (s := s) hlen hdec
    refine ⟨fun a a' => (hout a).trans (hout a').symm, fun a b => ?_⟩
    have hencoding : (∃ e rest, stream = e ++ rest ∧ Encodes e b ∧ b.length ≤ limit.toNat) ↔
        ∃ c, decodeChunked profile stream limit = .ok (.complete b c) := encoding_iff hlen b
    rw [hout a, hencoding]
    refine iff_of_false ?_ ?_
    · split
      · simp [tooLarge]
      · unfold ended
        split <;> simp
    · rintro ⟨c, hc⟩
      exact hdec (decided_of_complete stream b c hc)

end Outcomes

/-- **Chunked bodies.** A stream is judged by its bytes exactly when its verdict is due in time. -/
theorem judged_iff_inTime (profile : Profile) (limit : UInt64) (s : Stream) (stream : Bytes)
    (hlen : stream.length < u64Bound) :
    JudgedByBytes profile limit s stream ↔ InTime profile limit stream :=
  ⟨judged_inTime, inTime_judged hlen⟩

def idle : Stream where
  reads := []
  readError := none
  room := none
  writeError := []
  written := []

theorem judged_iff_inTime_short :
    JudgedByBytes .dev 3 idle (ascii "3\r\nabc\r\n0\r\n\r\n") := by
  refine (judged_iff_inTime .dev 3 idle _ (by decide)).mpr (inTime_of_short ?_)
  decide

/-! ## A body of small chunks -/

def smallChunk : Bytes := ascii "0000000000000001" ++ crlf ++ (ascii "a" ++ crlf)

def smallChunks : Nat → Bytes
  | 0 => ascii "0" ++ crlf ++ crlf
  | n + 1 => smallChunk ++ smallChunks n

theorem smallChunks_encodes (n : Nat) : Encodes (smallChunks n) (List.replicate n (ch 'a')) := by
  induction n with
  | zero =>
    have hsize : IsSize (ascii "0") 0 :=
      ⟨by decide, by decide, List.all_eq_true.mp (by decide), by decide⟩
    exact .last hsize
  | succ n ih =>
    have hsize : IsSize (ascii "0000000000000001") (ascii "a").length :=
      ⟨by decide, by decide, List.all_eq_true.mp (by decide), by decide⟩
    exact .chunk hsize (by decide) ih

theorem smallChunks_length (n : Nat) : (smallChunks n).length = 21 * n + 5 := by
  induction n with
  | zero => rfl
  | succ n ih =>
    have hone : smallChunk.length = 21 := by decide
    unfold smallChunks
    rw [List.length_append, ih, hone]
    omega

theorem small_chunks_verdict : FirstVerdict .release 300 (smallChunks 300) (smallChunks 300).length := by
  have hlen := smallChunks_length 300
  have henc := smallChunks_encodes 300
  have hlimit : (List.replicate 300 (ch 'a')).length ≤ (300 : UInt64).toNat := by
    rw [List.length_replicate]
    decide
  have hu64 : u64Bound = 2 ^ 64 := rfl
  refine ⟨Nat.le_refl _, ?_, ?_⟩
  · have hwhole := decode_encodes .release 300 _ _ [] henc (by rw [List.append_nil]; omega) hlimit
    rw [List.append_nil] at hwhole
    rw [List.take_length]
    exact decided_of_complete _ _ _ hwhole
  · intro n hn
    unfold Decided
    rw [not_not]
    refine decode_prefix .release 300 _ _ _ ((smallChunks 300).drop n) henc (List.take_append_drop _ _) ?_
      (by omega) hlimit
    intro he
    have := congrArg List.length he
    rw [List.length_drop, List.length_nil] at this
    omega

theorem small_chunks_late :
    rawBound 300 + 1 < (smallChunks 300).length ∧ (smallChunks 300).length ≤ rawBound 300 + maxRead := by
  have hbound : rawBound 300 = 4696 := by decide
  rw [smallChunks_length, hbound]
  decide

/-- It is accepted where one read reaches across byte 4697, refused where a read ends there. -/
theorem small_chunks_misjudged :
    ¬ JudgedByBytes .release 300 idle (smallChunks 300) :=
  not_judged _ small_chunks_verdict small_chunks_late.1 small_chunks_late.2

end Capcurl.ChunkedBody
