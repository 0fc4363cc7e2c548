import Capcurl.Core.Daemon
import Capcurl.Lib.Runs

/-! # The read loops of both halves

What a loop over a growing buffer can do, whatever the reads are.
-/

namespace Capcurl.ReadLoop

open Lib Http Capcurl.Core

section Loop

variable {β : Type} (check : Bytes → Option (Except (Halt CoreError) β)) (ended : Bytes → CoreError)
  (buf : Bytes) (s : Stream)

theorem readLoop_cases (hne : ∀ r ∈ s.reads, r ≠ []) :
    (∃ e unread, readLoop check ended buf s = .error e { s with reads := unread } ∧
        ((∃ e', e = .err e') ∨ ∃ q, check q = some (.error e))) ∨
      ∃ b seen unread, readLoop check ended buf s = .ok b { s with reads := unread } ∧
        check (buf ++ seen) = some (.ok b) ∧ seen ++ unread.flatten = s.reads.flatten ∧
        unread <:+ s.reads := by
  unfold readLoop
  rcases feed_cases check buf s.reads hne with
    ⟨v, seen, unread, hfeed, hv, hseen, hsuf⟩ | ⟨hfeed, -⟩
  · rw [hfeed]
    cases v with
    | ok b => exact .inr ⟨b, seen, unread, rfl, hv, hseen, hsuf⟩
    | error e => exact .inl ⟨e, unread, rfl, .inr ⟨_, hv⟩⟩
  · rw [hfeed]
    cases s.readError <;> exact .inl ⟨_, [], rfl, .inl ⟨_, rfl⟩⟩

theorem readLoop_verdict (hne : ∀ r ∈ s.reads, r ≠ []) (hend : check (buf ++ s.reads.flatten) ≠ none) :
    ∃ v seen unread, check (buf ++ seen) = some v ∧ seen ++ unread.flatten = s.reads.flatten ∧
      unread <:+ s.reads ∧
      result (readLoop check ended buf s) = v ∧
      finalState (readLoop check ended buf s) = { s with reads := unread } := by
  rcases feed_cases check buf s.reads hne with
    ⟨v, seen, unread, hfeed, hv, hseen, hsuf⟩ | ⟨-, hnone⟩
  · refine ⟨v, seen, unread, hv, hseen, hsuf, ?_⟩
    unfold readLoop
    rw [hfeed]
    cases v <;> exact ⟨rfl, rfl⟩
  · exact absurd hnone hend

theorem readLoop_decides (value : Bytes → β) (hne : ∀ r ∈ s.reads, r ≠ [])
    (hend : check (buf ++ s.reads.flatten) ≠ none)
    (hvalue : ∀ seen rest, seen ++ rest = s.reads.flatten → ∀ v, check (buf ++ seen) = some v →
      v = .ok (value (buf ++ seen))) :
    ∃ seen unread, readLoop check ended buf s = .ok (value (buf ++ seen)) { s with reads := unread } ∧
      check (buf ++ seen) = some (.ok (value (buf ++ seen))) ∧
      seen ++ unread.flatten = s.reads.flatten ∧ unread <:+ s.reads := by
  obtain ⟨v, seen, unread, hv, hseen, hsuf, hresult, hfinal⟩ := readLoop_verdict check ended buf s hne hend
  have hv' := hvalue seen unread.flatten hseen v hv
  subst hv'
  exact ⟨seen, unread, run_of_result _ _ _ hresult hfinal, hv, hseen, hsuf⟩

end Loop

/-! ## A declared length -/

theorem lengthCheck_eq (len : Nat) (buf : Bytes) (v : Except (Halt CoreError) Bytes)
    (h : lengthCheck len buf = some v) : len ≤ buf.length ∧ v = .ok (buf.take len) := by
  unfold lengthCheck at h
  split at h
  · cases h
  · exact ⟨by omega, (Option.some.inj h).symm⟩

theorem readLength_ok (len : Nat) (ended : Bytes → CoreError) (buf : Bytes) (s : Stream)
    (hne : ∀ r ∈ s.reads, r ≠ []) (h : len ≤ (buf ++ s.reads.flatten).length) :
    ∃ unread, readLoop (lengthCheck len) ended buf s =
      .ok ((buf ++ s.reads.flatten).take len) { s with reads := unread } := by
  obtain ⟨seen, unread, hrun, hcheck, hseen, -⟩ := readLoop_decides (lengthCheck len) ended buf s
    (·.take len) hne (by rw [lengthCheck, if_neg (by omega)]; simp)
    fun seen rest _ v hv => (lengthCheck_eq len _ v hv).2
  refine ⟨unread, ?_⟩
  have hlen := (lengthCheck_eq len _ _ hcheck).1
  rw [hrun, ← hseen, ← List.append_assoc, List.take_append_of_le_length hlen]

theorem readLength_short (len : Nat) (ended : Bytes → CoreError) (buf : Bytes) (s : Stream)
    (hne : ∀ r ∈ s.reads, r ≠ []) (h : (buf ++ s.reads.flatten).length < len) :
    ∃ e unread,
      readLoop (lengthCheck len) ended buf s = .error (.err e) { s with reads := unread } := by
  rcases readLoop_cases (lengthCheck len) ended buf s hne with
    ⟨_, unread, herror, ⟨e, rfl⟩ | ⟨q, hq⟩⟩ | ⟨b, seen, unread, -, hcheck, hseen, -⟩
  · exact ⟨e, unread, herror⟩
  · cases (lengthCheck_eq len q _ hq).2
  · have hlen := (lengthCheck_eq len _ _ hcheck).1
    rw [← hseen, ← List.append_assoc, List.length_append] at h
    omega

/-! ## A head -/

theorem findHeadEnd_part (whole q x : Bytes) (n : Nat) (h : findHeadEnd whole = some n)
    (hq : q ++ x = whole) : findHeadEnd q = if n ≤ q.length then some n else none := by
  obtain ⟨i, hi, rfl⟩ := Option.map_eq_some_iff.mp h
  have htake : q = whole.take q.length := by rw [← hq, List.take_left]
  unfold findHeadEnd
  rw [htake, findSeq_take _ _ i _ crlf2_ne_nil hi, ← htake]
  by_cases hle : i + (crlf ++ crlf).length ≤ q.length
  · rw [if_pos hle, if_pos (by simpa using hle)]
    rfl
  · rw [if_neg hle, if_neg (by simpa using hle)]
    rfl

theorem part_of_head (text rest q x : Bytes) (hq : q ++ x = text ++ rest) (h : text.length ≤ q.length) :
    q = text ++ q.drop text.length ∧ q.drop text.length ++ x = rest := by
  obtain ⟨q', rfl, hrest⟩ := prefix_split q x text rest hq h
  rw [List.drop_left]
  exact ⟨rfl, hrest.symm⟩

end Capcurl.ReadLoop
