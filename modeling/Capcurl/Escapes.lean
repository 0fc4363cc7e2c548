import Capcurl.Lib.Rust
import Capcurl.Spec.Origin

/-! # The two walkers over percent-escapes

`check_escapes` and `percent_decode` go over the bytes by position. Here they are as the source has them,
and what both of them find: the escapes of a text, piece by piece.
-/

namespace Capcurl.Escapes

open Lib Policy Spec

/-! ## The walkers, by position -/

/-- One turn of the loop of `check_escapes`. -/
def checkEscapesTurn (bytes : Text) (i : Nat) : Except (Halt TargetError) (Unit ⊕ Nat) :=
  if i < bytes.length then do
    if (← index bytes i) = ch '%' then
      if i + 2 ≥ bytes.length then throw (.err .badEscape)
      if !isHexDigit (← index bytes (i + 1)) || !isHexDigit (← index bytes (i + 2)) then
        throw (.err .badEscape)
      return .inr (i + 3)
    else return .inr (i + 1)
  else return .inl ()

/-- `ok_or(TargetError::BadEscape)?` -/
def digitOr (digit : Option Nat) : Except (Halt TargetError) Nat :=
  match digit with
  | some n => return n
  | none => throw (.err .badEscape)

/-- One turn of the loop of `percent_decode`. -/
def percentDecodeTurn (bytes : Text) :
    Bytes × Nat → Except (Halt TargetError) (Bytes ⊕ Bytes × Nat)
  | (out, i) =>
    if i < bytes.length then do
      if (← index bytes i) = ch '%' then
        if i + 2 ≥ bytes.length then throw (.err .badEscape)
        let hi ← digitOr (toDigit 16 (← index bytes (i + 1)))
        let lo ← digitOr (toDigit 16 (← index bytes (i + 2)))
        return .inr (out ++ [UInt8.ofNat (hi <<< 4 ||| lo)], i + 3)
      else return .inr (out ++ [← index bytes i], i + 1)
    else return .inl out

/-- What a walker finds at a position in range: a byte, and the bytes after it. -/
structure Finds (bytes : Text) (i : Nat) (b : Byte) (rest : Text) : Prop where
  inRange : i < bytes.length
  first : index (ε := TargetError) bytes i = .ok b
  second : index (ε := TargetError) bytes (i + 1) = index rest 0
  third : index (ε := TargetError) bytes (i + 2) = index rest 1
  short : i + 2 ≥ bytes.length ↔ rest.length < 2
  next : bytes.drop (i + 1) = rest
  behind : bytes.drop (i + 3) = rest.drop 2

theorem finds_of_drop (bytes : Text) (i : Nat) (b : Byte) (rest : Text) (h : bytes.drop i = b :: rest) :
    Finds bytes i b rest := by
  have hindex : ∀ k, index (ε := TargetError) bytes (i + k) = index (b :: rest) k := by
    intro k
    unfold index
    rw [← h, List.getElem?_drop]
  have hdrop : ∀ k, bytes.drop (i + k) = (b :: rest).drop k := by
    intro k
    rw [← h, List.drop_drop]
  have hlen := congrArg List.length h
  rw [List.length_drop, List.length_cons] at hlen
  exact ⟨by omega, hindex 0, hindex 1, hindex 2, by omega, hdrop 1, hdrop 3⟩

/-! ## The walkers, over lists -/

theorem shift_or_digit (lo : Byte) (m n : Nat) (h : toDigit 16 lo = some n) :
    m <<< 4 ||| n = m * 16 + n := by
  have hn : n < 2 ^ 4 := toDigit_lt 16 lo n h
  rw [← Nat.shiftLeft_add_eq_or_of_lt hn, Nat.shiftLeft_eq]

theorem exists_two (rest : Text) (h : ¬ rest.length < 2) : ∃ hi lo tail, rest = hi :: lo :: tail := by
  rcases rest with _ | ⟨hi, _ | ⟨lo, tail⟩⟩
  · exact absurd (Nat.zero_lt_two) h
  · exact absurd (Nat.one_lt_two) h
  · exact ⟨hi, lo, tail, rfl⟩

theorem walkers_short (rest : Text) (h : rest.length < 2) :
    checkEscapes (ch '%' :: rest) = .error .badEscape ∧
      percentDecode (ch '%' :: rest) = .error .badEscape := by
  rcases rest with _ | ⟨hi, _ | ⟨lo, tail⟩⟩
  · exact ⟨rfl, rfl⟩
  · exact ⟨rfl, rfl⟩
  · simp only [List.length_cons] at h
    omega

theorem checkEscapes_escape (hi lo : Byte) (rest : Text) :
    checkEscapes (ch '%' :: hi :: lo :: rest) =
      if !isHexDigit hi || !isHexDigit lo then .error .badEscape else checkEscapes rest := by
  rw [checkEscapes.eq_def]
  exact if_pos rfl

theorem checkEscapes_plain (b : Byte) (rest : Text) (hb : b ≠ ch '%') :
    checkEscapes (b :: rest) = checkEscapes rest := by
  rw [checkEscapes.eq_def]
  exact if_neg hb

theorem percentDecode_escape (hi lo : Byte) (rest : Text) (m n : Nat) (hm : toDigit 16 hi = some m)
    (hn : toDigit 16 lo = some n) :
    percentDecode (ch '%' :: hi :: lo :: rest) =
      (percentDecode rest).map (UInt8.ofNat (m * 16 + n) :: ·) := by
  rw [percentDecode.eq_def]
  simp only [if_true, hm, hn]
  rfl

theorem percentDecode_bad (hi lo : Byte) (rest : Text) (h : toDigit 16 hi = none ∨ toDigit 16 lo = none) :
    percentDecode (ch '%' :: hi :: lo :: rest) = .error .badEscape := by
  rw [percentDecode.eq_def]
  simp only [if_true]
  rcases h with h | h
  · simp only [h]
    rfl
  · cases hm : toDigit 16 hi with
    | none => rfl
    | some m =>
      simp only [h]
      rfl

theorem percentDecode_plain (b : Byte) (rest : Text) (hb : b ≠ ch '%') :
    percentDecode (b :: rest) = (percentDecode rest).map (b :: ·) := by
  rw [percentDecode.eq_def]
  exact if_neg hb

section Walk

variable (bytes : Text)

theorem checkEscapesTurn_short (i : Nat) (rest : Text) (hfinds : Finds bytes i (ch '%') rest)
    (h : rest.length < 2) : checkEscapesTurn bytes i = .error (.err .badEscape) := by
  unfold checkEscapesTurn
  rw [if_pos hfinds.inRange, hfinds.first, ok_bind, if_pos rfl, if_pos (hfinds.short.mpr h)]
  rfl

theorem checkEscapesTurn_escape (i : Nat) (hi lo : Byte) (rest : Text)
    (hfinds : Finds bytes i (ch '%') (hi :: lo :: rest)) :
    checkEscapesTurn bytes i =
      if !isHexDigit hi || !isHexDigit lo then .error (.err .badEscape) else .ok (.inr (i + 3)) := by
  have hlong : ¬ i + 2 ≥ bytes.length := fun h => absurd (hfinds.short.mp h) (by simp)
  unfold checkEscapesTurn
  rw [if_pos hfinds.inRange, hfinds.first, ok_bind, if_pos rfl, if_neg hlong, hfinds.second, hfinds.third]
  rfl

theorem checkEscapesTurn_plain (i : Nat) (b : Byte) (rest : Text) (hfinds : Finds bytes i b rest)
    (hb : b ≠ ch '%') : checkEscapesTurn bytes i = .ok (.inr (i + 1)) := by
  unfold checkEscapesTurn
  rw [if_pos hfinds.inRange, hfinds.first, ok_bind]
  exact if_neg hb

theorem checkEscapesTurn_spec (i : Nat) :
    Ends (checkEscapesTurn bytes) i ((checkEscapes (bytes.drop i)).mapError .err) ∨
      ∃ i', checkEscapesTurn bytes i = .ok (.inr i') ∧
        (checkEscapes (bytes.drop i')).mapError Halt.err =
          (checkEscapes (bytes.drop i)).mapError Halt.err ∧
        bytes.length - i' < bytes.length - i := by
  cases hdrop : bytes.drop i with
  | nil =>
    have hend : checkEscapesTurn bytes i = .ok (.inl ()) := by
      unfold checkEscapesTurn
      rw [if_neg (Nat.not_lt.mpr (List.drop_eq_nil_iff.mp hdrop))]
      rfl
    exact .inl (.inl ⟨(), hend, rfl⟩)
  | cons b rest =>
    have hfinds := finds_of_drop bytes i b rest hdrop
    have hrange := hfinds.inRange
    by_cases hb : b = ch '%'
    · subst hb
      by_cases hshort : rest.length < 2
      · rw [(walkers_short rest hshort).1]
        exact .inl (.inr ⟨_, checkEscapesTurn_short bytes i rest hfinds hshort, rfl⟩)
      · obtain ⟨hi, lo, rest, rfl⟩ := exists_two rest hshort
        have hturn := checkEscapesTurn_escape bytes i hi lo rest hfinds
        rw [checkEscapes_escape]
        by_cases hhex : (!isHexDigit hi || !isHexDigit lo) = true
        · rw [if_pos hhex] at hturn ⊢
          exact .inl (.inr ⟨_, hturn, rfl⟩)
        · rw [if_neg hhex] at hturn ⊢
          refine .inr ⟨i + 3, hturn, ?_, by omega⟩
          rw [hfinds.behind]
          rfl
    · rw [checkEscapes_plain b rest hb]
      exact .inr ⟨i + 1, checkEscapesTurn_plain bytes i b rest hfinds hb, by rw [hfinds.next], by omega⟩

theorem checkEscapes_walks :
    loop (checkEscapesTurn bytes) (bytes.length + 1) 0 = (checkEscapes bytes).mapError .err :=
  loop_computes (checkEscapesTurn bytes) (fun i => (checkEscapes (bytes.drop i)).mapError .err)
    (fun i => bytes.length - i) (checkEscapesTurn_spec bytes) (bytes.length + 1) 0 (by omega)

theorem percentDecodeTurn_short (out : Bytes) (i : Nat) (rest : Text)
    (hfinds : Finds bytes i (ch '%') rest) (h : rest.length < 2) :
    percentDecodeTurn bytes (out, i) = .error (.err .badEscape) := by
  unfold percentDecodeTurn
  dsimp only
  rw [if_pos hfinds.inRange, hfinds.first, ok_bind, if_pos rfl, if_pos (hfinds.short.mpr h)]
  rfl

theorem percentDecodeTurn_escape (out : Bytes) (i : Nat) (hi lo : Byte) (rest : Text)
    (hfinds : Finds bytes i (ch '%') (hi :: lo :: rest)) :
    percentDecodeTurn bytes (out, i) = do
      let hi ← digitOr (toDigit 16 hi)
      let lo ← digitOr (toDigit 16 lo)
      return .inr (out ++ [UInt8.ofNat (hi <<< 4 ||| lo)], i + 3) := by
  have hlong : ¬ i + 2 ≥ bytes.length := fun h => absurd (hfinds.short.mp h) (by simp)
  unfold percentDecodeTurn
  dsimp only
  rw [if_pos hfinds.inRange, hfinds.first, ok_bind, if_pos rfl, if_neg hlong, hfinds.second, hfinds.third]
  rfl

theorem percentDecodeTurn_plain (out : Bytes) (i : Nat) (b : Byte) (rest : Text)
    (hfinds : Finds bytes i b rest) (hb : b ≠ ch '%') :
    percentDecodeTurn bytes (out, i) = .ok (.inr (out ++ [b], i + 1)) := by
  unfold percentDecodeTurn
  dsimp only
  rw [if_pos hfinds.inRange, hfinds.first, ok_bind, if_neg hb, ok_bind]
  rfl

theorem decoded_moves (out : Bytes) (b : Byte) (rest : Except TargetError Bytes) :
    (rest.map (out ++ [b] ++ ·)).mapError Halt.err =
      ((rest.map (b :: ·)).map (out ++ ·)).mapError Halt.err := by
  cases rest with
  | error e => rfl
  | ok d => exact congrArg Except.ok (List.append_assoc out [b] d)

theorem percentDecodeTurn_spec (st : Bytes × Nat) :
    Ends (percentDecodeTurn bytes) st
        (((percentDecode (bytes.drop st.2)).map (st.1 ++ ·)).mapError .err) ∨
      ∃ st', percentDecodeTurn bytes st = .ok (.inr st') ∧
        ((percentDecode (bytes.drop st'.2)).map (st'.1 ++ ·)).mapError Halt.err =
          ((percentDecode (bytes.drop st.2)).map (st.1 ++ ·)).mapError Halt.err ∧
        bytes.length - st'.2 < bytes.length - st.2 := by
  obtain ⟨out, i⟩ := st
  dsimp only
  cases hdrop : bytes.drop i with
  | nil =>
    have hend : percentDecodeTurn bytes (out, i) = .ok (.inl out) := by
      unfold percentDecodeTurn
      dsimp only
      rw [if_neg (Nat.not_lt.mpr (List.drop_eq_nil_iff.mp hdrop))]
      rfl
    exact .inl (.inl ⟨out, hend, congrArg Except.ok (List.append_nil out)⟩)
  | cons b rest =>
    have hfinds := finds_of_drop bytes i b rest hdrop
    have hrange := hfinds.inRange
    by_cases hb : b = ch '%'
    · subst hb
      by_cases hshort : rest.length < 2
      · rw [(walkers_short rest hshort).2]
        exact .inl (.inr ⟨_, percentDecodeTurn_short bytes out i rest hfinds hshort, rfl⟩)
      · obtain ⟨hi, lo, rest, rfl⟩ := exists_two rest hshort
        have hturn := percentDecodeTurn_escape bytes out i hi lo rest hfinds
        cases hhi : toDigit 16 hi with
        | none =>
          rw [hhi] at hturn
          rw [percentDecode_bad hi lo rest (.inl hhi)]
          exact .inl (.inr ⟨_, hturn, rfl⟩)
        | some m =>
          cases hlo : toDigit 16 lo with
          | none =>
            rw [hhi, hlo] at hturn
            rw [percentDecode_bad hi lo rest (.inr hlo)]
            exact .inl (.inr ⟨_, hturn, rfl⟩)
          | some n =>
            rw [hhi, hlo] at hturn
            rw [percentDecode_escape hi lo rest m n hhi hlo]
            refine .inr ⟨_, hturn, ?_, Nat.sub_lt_sub_left hrange (by simp)⟩
            rw [← decoded_moves, ← shift_or_digit lo m n hlo]
            dsimp only
            rw [hfinds.behind]
            rfl
    · rw [percentDecode_plain b rest hb]
      refine .inr ⟨_, percentDecodeTurn_plain bytes out i b rest hfinds hb, ?_,
        Nat.sub_lt_sub_left hrange (by simp)⟩
      rw [← decoded_moves]
      dsimp only
      rw [hfinds.next]

theorem percentDecode_walks :
    loop (percentDecodeTurn bytes) (bytes.length + 1) ([], 0) = (percentDecode bytes).mapError .err := by
  have hloop := loop_computes (percentDecodeTurn bytes)
    (fun st => ((percentDecode (bytes.drop st.2)).map (st.1 ++ ·)).mapError .err)
    (fun st => bytes.length - st.2) (percentDecodeTurn_spec bytes) (bytes.length + 1) ([], 0)
    (Nat.lt_succ_self _)
  rw [hloop]
  dsimp only
  rw [List.drop_zero]
  cases percentDecode bytes <;> rfl

end Walk

/-! ## What they find -/

theorem checkEscapes_digits (hi lo : Byte) (rest : Text) (m n : Nat) (hm : toDigit 16 hi = some m)
    (hn : toDigit 16 lo = some n) :
    checkEscapes (ch '%' :: hi :: lo :: rest) = checkEscapes rest := by
  rw [checkEscapes_escape, ← toDigit_isSome, ← toDigit_isSome, hm, hn]
  rfl

theorem checkEscapes_bad (hi lo : Byte) (rest : Text) (h : toDigit 16 hi = none ∨ toDigit 16 lo = none) :
    checkEscapes (ch '%' :: hi :: lo :: rest) = .error .badEscape := by
  rw [checkEscapes_escape, ← toDigit_isSome, ← toDigit_isSome]
  apply if_pos
  rcases h with h | h
  · simp [h]
  · simp [h]

theorem walkers_stop (rest : Text) (h : NoEscape (ch '%' :: rest)) :
    checkEscapes (ch '%' :: rest) = .error .badEscape ∧
      percentDecode (ch '%' :: rest) = .error .badEscape := by
  by_cases hshort : rest.length < 2
  · exact walkers_short rest hshort
  · obtain ⟨hi, lo, rest, rfl⟩ := exists_two rest hshort
    have hbad : toDigit 16 hi = none ∨ toDigit 16 lo = none := by
      cases hm : toDigit 16 hi with
      | none => exact .inl rfl
      | some m =>
        refine .inr (Option.eq_none_iff_forall_ne_some.mpr ?_)
        intro n hn
        exact h hi lo rest m n rfl hm hn
    exact ⟨checkEscapes_bad hi lo rest hbad, percentDecode_bad hi lo rest hbad⟩

theorem walkers_agree (s : Text) :
    (checkEscapes s = .ok () ∧ percentDecode s = .ok (decode s)) ∨
      (checkEscapes s = .error .badEscape ∧ percentDecode s = .error .badEscape) := by
  induction s using decode_induction with
  | nil => exact .inl ⟨rfl, rfl⟩
  | escape hi lo rest m n hm hn ih =>
    rw [checkEscapes_digits hi lo rest m n hm hn, percentDecode_escape hi lo rest m n hm hn,
      decode_escape hi lo rest m n hm hn]
    exact ih.imp (And.imp_right fun h => by rw [h]; rfl) (And.imp_right fun h => by rw [h]; rfl)
  | plain b rest hno ih =>
    by_cases hb : b = ch '%'
    · subst hb
      exact .inr (walkers_stop rest hno)
    · rw [checkEscapes_plain b rest hb, percentDecode_plain b rest hb, decode_plain b rest hno]
      exact ih.imp (And.imp_right fun h => by rw [h]; rfl) (And.imp_right fun h => by rw [h]; rfl)

theorem percentDecode_of_check (s : Text) (h : checkEscapes s = .ok ()) :
    percentDecode s = .ok (decode s) := by
  rcases walkers_agree s with hs | hs
  · exact hs.2
  · rw [hs.1] at h
    cases h

theorem checkEscapes_append_slash (a b : Text) :
    checkEscapes (a ++ ch '/' :: b) = (do checkEscapes a; checkEscapes b) := by
  induction a using decode_induction with
  | nil => exact checkEscapes_plain _ _ (by decide)
  | escape hi lo rest m n hm hn ih =>
    rw [checkEscapes_digits hi lo rest m n hm hn, ← ih]
    exact checkEscapes_digits hi lo _ m n hm hn
  | plain c rest hno ih =>
    by_cases hc : c = ch '%'
    · subst hc
      rw [(walkers_stop rest hno).1]
      exact (walkers_stop _ (noEscape_append_slash _ rest b hno)).1
    · rw [checkEscapes_plain c rest hc, ← ih]
      exact checkEscapes_plain c _ hc

theorem checkEscapes_intercalate (parts : List Text) :
    checkEscapes ([ch '/'].intercalate parts) = .ok () ↔ ∀ part ∈ parts, checkEscapes part = .ok () := by
  induction parts with
  | nil => exact iff_of_true rfl (by simp)
  | cons part parts ih =>
    match parts with
    | [] => simp
    | next :: parts =>
      rw [List.intercalate_cons_cons, List.append_assoc, List.singleton_append,
        checkEscapes_append_slash, List.forall_mem_cons, ← ih]
      cases checkEscapes part with
      | error e => exact iff_of_false (fun h => nomatch h) (fun h => nomatch h.1)
      | ok _ => exact (and_iff_right rfl).symm

theorem checkEscapes_tail (b : Byte) (rest : Text) (h : checkEscapes (b :: rest) = .ok ()) :
    checkEscapes rest = .ok () := by
  by_cases hb : b = ch '%'
  · subst hb
    by_cases hshort : rest.length < 2
    · rw [(walkers_short rest hshort).1] at h
      cases h
    · obtain ⟨hi, lo, rest, rfl⟩ := exists_two rest hshort
      rw [checkEscapes_escape] at h
      split at h
      · cases h
      · rename_i hhex
        simp only [Bool.or_eq_true, Bool.not_eq_true', not_or, Bool.not_eq_false] at hhex
        rw [checkEscapes_plain hi _ (hex_ne hi (ch '%') hhex.1 rfl),
          checkEscapes_plain lo _ (hex_ne lo (ch '%') hhex.2 rfl)]
        exact h
  · rwa [checkEscapes_plain b rest hb] at h

theorem checkEscapes_segments (s : Text) :
    checkEscapes s = .ok () ↔ ∀ piece ∈ segments s, checkEscapes piece = .ok () := by
  rw [← checkEscapes_intercalate, segments, List.intercalate_splitOn]

/-! ## The bad-escape branch of the segment loop -/

section CheckPath

variable (allow : Bool)

theorem checkSegment_badEscape (last : Bool) (s : Text)
    (h : checkSegment allow last s = .error .badEscape) : ∃ e, percentDecode s = .error e := by
  unfold checkSegment at h
  split at h
  · split at h
    · cases h
    · cases h
  · cases hdecoded : percentDecode s with
    | error e => exact ⟨e, rfl⟩
    | ok d =>
      rw [hdecoded, ok_bind] at h
      by_cases hdots : d = ascii "." ∨ d = ascii ".."
      · rw [if_pos hdots] at h
        cases h
      · rw [if_neg hdots] at h
        split at h
        · cases h
        · cases h

theorem checkSegments_badEscape (segs : List Text) (h : checkSegments allow segs = .error .badEscape) :
    ∃ s ∈ segs, ∃ e, percentDecode s = .error e := by
  induction segs with
  | nil => cases h
  | cons s segs ih =>
    rw [checkSegments, bind_eq_error] at h
    rcases h with h | ⟨_, -, h⟩
    · exact ⟨s, List.mem_cons_self, checkSegment_badEscape allow _ s h⟩
    · obtain ⟨t, ht, hdecoded⟩ := ih h
      exact ⟨t, List.mem_cons_of_mem _ ht, hdecoded⟩

theorem segments_decode (s : Text) (h : checkEscapes s = .ok ()) :
    List.Forall₂ (fun piece d => percentDecode piece = .ok d) (segments s) ((segments s).map decode) := by
  rw [List.forall₂_map_right_iff, List.forall₂_same]
  intro piece hpiece
  exact percentDecode_of_check piece ((checkEscapes_segments s).mp h piece hpiece)

theorem path_segments_decode (path : Text) (h : checkEscapes path = .ok ()) (segment : Text)
    (hsegment : segment ∈ segments (path.drop 1)) : percentDecode segment = .ok (decode segment) := by
  have htail : checkEscapes (path.drop 1) = .ok () := by
    cases path with
    | nil => exact h
    | cons b rest => exact checkEscapes_tail b rest h
  exact percentDecode_of_check segment ((checkEscapes_segments _).mp htail segment hsegment)

theorem checkPath_badEscape (path : Text) :
    checkPath path allow = .error .badEscape ↔ checkEscapes path = .error .badEscape := by
  unfold checkPath
  rcases walkers_agree path with ⟨hok, -⟩ | ⟨hbad, -⟩
  · rw [hok, ok_bind]
    refine iff_of_false (fun h => ?_) (fun h => nomatch h)
    obtain ⟨segment, hsegment, e, he⟩ := checkSegments_badEscape allow _ h
    rw [path_segments_decode path hok segment hsegment] at he
    cases he
  · rw [hbad]
    exact iff_of_true rfl rfl

end CheckPath

/-- The walkers run to their end, agree on every text, and agree piece by piece. So the segment loop of
`check_path` decodes every segment that it is given, and a bad escape is found before it. -/
theorem escapes_judged_once (s : Text) :
    loop (checkEscapesTurn s) (s.length + 1) 0 = (checkEscapes s).mapError .err ∧
    loop (percentDecodeTurn s) (s.length + 1) ([], 0) = (percentDecode s).mapError .err ∧
    (checkEscapes s = .ok () ↔ ∃ d, percentDecode s = .ok d) ∧
    (checkEscapes s = .ok () ↔ ∀ piece ∈ segments s, checkEscapes piece = .ok ()) ∧
    (checkEscapes s = .ok () →
      ∃ ds, List.Forall₂ (fun piece d => percentDecode piece = .ok d) (segments s) ds ∧
        percentDecode s = .ok ([ch '/'].intercalate ds)) ∧
    (checkEscapes s = .ok () → ∀ segment ∈ segments (s.drop 1), ∃ d, percentDecode segment = .ok d) ∧
    ∀ allow, checkPath s allow = .error .badEscape ↔ checkEscapes s = .error .badEscape := by
  have hagree : checkEscapes s = .ok () ↔ ∃ d, percentDecode s = .ok d := by
    rcases walkers_agree s with ⟨hok, hd⟩ | ⟨hbad, hd⟩
    · exact iff_of_true hok ⟨_, hd⟩
    · rw [hbad, hd]
      exact iff_of_false (fun h => nomatch h) (fun ⟨_, h⟩ => nomatch h)
  have hpieces : checkEscapes s = .ok () →
      ∃ ds, List.Forall₂ (fun piece d => percentDecode piece = .ok d) (segments s) ds ∧
        percentDecode s = .ok ([ch '/'].intercalate ds) := by
    intro h
    refine ⟨_, segments_decode s h, ?_⟩
    rw [← decode_intercalate, segments, List.intercalate_splitOn]
    exact percentDecode_of_check s h
  exact ⟨checkEscapes_walks s, percentDecode_walks s, hagree, checkEscapes_segments s, hpieces,
    fun h segment hsegment => ⟨_, path_segments_decode s h segment hsegment⟩,
    fun allow => checkPath_badEscape allow s⟩

end Capcurl.Escapes
