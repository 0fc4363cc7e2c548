import Capcurl.Chunked

/-! # The chunked decoder against its encoding -/

namespace Capcurl.ChunkedCodec

open Lib Http Spec Chunked

/-! ## The inverse of the encoding -/

/-- **The decoder inverts the encoding**: it takes an encoding within the limit off the front of its
input, and takes nothing else. -/
theorem strict_encoding_inverse (profile : Profile) (limit : UInt64) :
    (∀ e b s, Encodes e b → b.length ≤ limit.toNat → (e ++ s).length < u64Bound →
      decodeChunked profile (e ++ s) limit = .ok (.complete b e.length)) ∧
    ∀ input b c, input.length < u64Bound → decodeChunked profile input limit = .ok (.complete b c) →
      c ≤ input.length ∧ Encodes (input.take c) b ∧ b.length ≤ limit.toNat := by
  constructor
  · intro e b s h hlimit hlen
    exact decode_encodes profile limit e b s h hlen hlimit
  · intro input b c hlen h
    obtain ⟨e, rest, rfl, he, hlimit, rfl⟩ := decode_complete profile limit input hlen b c h
    rw [List.take_left, List.length_append]
    exact ⟨Nat.le_add_right _ _, he, hlimit⟩

theorem strict_encoding_inverse_mixed :
    decodeChunked .release (ascii "03\r\na\r\n\r\n0000A\r\n0123456789\r\n00\r\n\r\nGET") 13 =
        .ok (.complete (ascii "a\r\n0123456789") 34) ∧
      Encodes ((ascii "03\r\na\r\n\r\n0000A\r\n0123456789\r\n00\r\n\r\nGET").take 34)
        (ascii "a\r\n0123456789") := by
  have hrun : decodeChunked .release
      (ascii "03\r\na\r\n\r\n0000A\r\n0123456789\r\n00\r\n\r\nGET") 13 =
        .ok (.complete (ascii "a\r\n0123456789") 34) := by decide
  exact ⟨hrun, ((strict_encoding_inverse .release 13).2 _ _ _ (by decide) hrun).2.1⟩

/-! ## The decoder between chunks -/

section Rows

variable (profile : Profile) (limit : UInt64)

/-- The decoder has taken a row of chunks, and holds their data. -/
def TakenRow (input : Bytes) (st : ChunkState) : Prop :=
  ∃ pre rest, input = pre ++ rest ∧ st.2 = pre.length ∧ Row pre st.1 ∧ st.1.length ≤ limit.toNat

theorem takenRow_start (input : Bytes) : TakenRow limit input ([], 0) :=
  ⟨[], input, rfl, rfl, .nil, Nat.zero_le _⟩

theorem takenRow_step (input : Bytes) (hlen : input.length < u64Bound) (st st' : ChunkState)
    (hinv : TakenRow limit input st) (h : decodeTurn profile input limit st = .ok (.inr st')) :
    TakenRow limit input st' ∧ input.length - st'.2 < input.length - st.2 := by
  obtain ⟨body, pos⟩ := st
  obtain ⟨pre, rest, rfl, rfl, hrow, -⟩ := hinv
  obtain ⟨line, data, tail, rfl, hline, hne, hlimit, rfl⟩ :=
    decodeTurn_taken profile limit pre body rest hlen (row_length pre body hrow) st' h
  refine ⟨⟨pre ++ (line ++ crlf ++ (data ++ crlf)), tail, by simp, rfl,
    row_snoc pre body line data hrow hline hne, ?_⟩, ?_⟩
  · rw [List.length_append]
    exact hlimit
  · simp
    omega

theorem decode_ends_row (input : Bytes) (hlen : input.length < u64Bound) :
    ∃ st, TakenRow limit input st ∧
      Ends (decodeTurn profile input limit) st (decodeChunked profile input limit) :=
  loop_ends _ (TakenRow limit input) (fun st => input.length - st.2)
    (takenRow_step profile limit input hlen) _ _ (takenRow_start limit input) (by simp)

theorem loop_row (pre₀ body₀ pre body rest : Bytes) (h : Row pre body) (fuel : Nat)
    (hlen : (pre₀ ++ (pre ++ rest)).length < u64Bound) (hbody : body₀.length ≤ pre₀.length)
    (hlimit : body₀.length + body.length ≤ limit.toNat) (hfuel : (pre ++ rest).length < fuel) :
    ∃ fuel', rest.length < fuel' ∧
      loop (decodeTurn profile (pre₀ ++ (pre ++ rest)) limit) fuel (body₀, pre₀.length) =
        loop (decodeTurn profile (pre₀ ++ (pre ++ rest)) limit) fuel'
          (body₀ ++ body, (pre₀ ++ pre).length) := by
  induction h generalizing pre₀ body₀ fuel with
  | nil => exact ⟨fuel, hfuel, by simp⟩
  | @chunk line data pre body hline hne _ ih =>
    obtain ⟨fuel, rfl⟩ : ∃ n, fuel = n + 1 := ⟨fuel - 1, by omega⟩
    rw [List.length_append] at hlimit
    have hassoc : pre₀ ++ (line ++ crlf ++ (data ++ crlf) ++ pre ++ rest) =
        pre₀ ++ (line ++ crlf ++ (data ++ crlf) ++ (pre ++ rest)) := by simp
    have hassoc' : pre₀ ++ (line ++ crlf ++ (data ++ crlf) ++ (pre ++ rest)) =
        pre₀ ++ (line ++ crlf ++ (data ++ crlf)) ++ (pre ++ rest) := by simp
    rw [hassoc] at hlen ⊢
    have hturn := decodeTurn_take profile limit pre₀ body₀ line data (pre ++ rest) hline hne hlen hbody
      (by omega)
    rw [loop_turn _ _ _ _ hturn]
    rw [hassoc'] at hlen ⊢
    obtain ⟨fuel', hfuel', hrun⟩ := ih (pre₀ ++ (line ++ crlf ++ (data ++ crlf))) (body₀ ++ data) fuel
      hlen (by simp only [List.length_append] at hbody ⊢; omega) (by rw [List.length_append]; omega)
      (by simp only [List.length_append, crlf_length] at hfuel ⊢; omega)
    exact ⟨fuel', hfuel', by rw [hrun]; simp⟩

theorem decode_behind_row (pre body rest : Bytes) (h : Row pre body)
    (hlen : (pre ++ rest).length < u64Bound) (hlimit : body.length ≤ limit.toNat)
    (r : Except (Halt HttpError) ChunkedOutcome)
    (hends : Ends (decodeTurn profile (pre ++ rest) limit) (body, pre.length) r) :
    decodeChunked profile (pre ++ rest) limit = r := by
  obtain ⟨fuel, hfuel, hrun⟩ := loop_row profile limit [] [] pre body rest h ((pre ++ rest).length + 1)
    hlen (Nat.le_refl 0) (by simpa using hlimit) (Nat.lt_succ_self _)
  obtain ⟨fuel, rfl⟩ : ∃ n, fuel = n + 1 := ⟨fuel - 1, by omega⟩
  unfold decodeChunked
  rw [List.nil_append] at hrun
  refine hrun.trans ?_
  rcases hends with ⟨b, hturn, rfl⟩ | ⟨e, hturn, rfl⟩
  · exact loop_return _ fuel _ _ hturn
  · rw [List.nil_append, List.nil_append, loop, hturn]

end Rows

/-! ## Overflow -/

/-- The call ends, and ends without a panic: in `dev` no addition overflows, in neither profile is a
slice out of range. -/
def Safe (input : Bytes) (limit : UInt64) : Prop :=
  ∀ profile, (∃ r, decodeChunked profile input limit = .ok r) ∨
    ∃ e, decodeChunked profile input limit = .error (.err e)

/-- Behind some chunks stands a size line that is too large for the 64 bits of a sum: with the bytes
decoded so far, or, within the limit, with the position behind it. -/
def Overflows (input : Bytes) (limit : UInt64) : Prop :=
  ∃ pre body line tail n, input = pre ++ (line ++ crlf ++ tail) ∧ Row pre body ∧
    body.length ≤ limit.toNat ∧ IsSize line n ∧ n ≠ 0 ∧
    (u64Bound ≤ body.length + n ∨
      body.length + n ≤ limit.toNat ∧ u64Bound ≤ (pre ++ line ++ crlf).length + n + 2)

section Overflow

variable (profile : Profile) (limit : UInt64) (pre body : Bytes)

theorem dataTurn_safe (rest : Bytes) (size : Nat)
    (hsum : body.length + size < u64Bound)
    (hend : body.length + size ≤ limit.toNat → pre.length + size + 2 < u64Bound) :
    (∃ r, dataTurn profile (pre ++ rest) limit body pre.length size = .ok r) ∨
      ∃ e, dataTurn profile (pre ++ rest) limit body pre.length size = .error (.err e) := by
  unfold dataTurn
  rw [addU64_ok _ _ _ hsum]
  simp only [ok_bind]
  by_cases hlimit : body.length + size > limit.toNat
  · rw [if_pos hlimit]
    exact .inr ⟨_, rfl⟩
  · have hsize := hend (Nat.not_lt.mp hlimit)
    rw [if_neg hlimit, addU64_ok _ _ _ (by omega)]
    simp only [ok_bind]
    rw [addU64_ok _ _ _ hsize]
    simp only [ok_bind]
    by_cases hshort : (pre ++ rest).length < pre.length + size + 2
    · rw [if_pos hshort]
      exact .inl ⟨_, rfl⟩
    · rw [if_neg hshort, slice_ok _ _ _ (by omega) (by omega)]
      simp only [ok_bind]
      split
      · exact .inr ⟨_, rfl⟩
      · rw [slice_ok _ _ _ (by omega) (by omega)]
        simp only [ok_bind]
        rw [addU64_ok _ _ _ (by omega)]
        simp only [ok_bind]
        rw [addU64_ok _ _ _ (by omega)]
        exact .inl ⟨_, rfl⟩

theorem lastTurn_safe (input : Bytes) (pos : Nat) (hpos : pos ≤ input.length) :
    (∃ r, lastTurn input body pos = .ok r) ∨ ∃ e, lastTurn input body pos = .error (.err e) := by
  unfold lastTurn
  rw [slice_from _ _ hpos]
  simp only [ok_bind]
  split
  · exact .inl ⟨_, rfl⟩
  · exact .inl ⟨_, rfl⟩
  · exact .inr ⟨_, rfl⟩

theorem decodeTurn_safe (rest : Bytes)
    (hno : ∀ line tail n, rest = line ++ crlf ++ tail → IsSize line n → n ≠ 0 →
      body.length + n < u64Bound ∧
        (body.length + n ≤ limit.toNat → (pre ++ line ++ crlf).length + n + 2 < u64Bound)) :
    (∃ r, decodeTurn profile (pre ++ rest) limit (body, pre.length) = .ok r) ∨
      ∃ e, decodeTurn profile (pre ++ rest) limit (body, pre.length) = .error (.err e) := by
  rcases decodeTurn_cases profile limit pre body rest with ⟨-, hwait⟩ | ⟨line, tail, n, rfl, hline⟩ | herror
  · exact .inl ⟨_, hwait⟩
  · rw [decodeTurn_line _ _ _ _ _ _ _ hline]
    by_cases hn : n = 0
    · rw [if_pos hn]
      exact lastTurn_safe body _ _ (by simp)
    · obtain ⟨hsum, hend⟩ := hno line tail n rfl hline hn
      have hassoc : pre ++ (line ++ crlf ++ tail) = pre ++ line ++ crlf ++ tail := by simp
      rw [if_neg hn, hassoc]
      exact dataTurn_safe profile limit _ body tail n hsum hend
  · exact .inr herror

theorem dataTurn_overflows (input : Bytes) (pos size : Nat)
    (h : u64Bound ≤ body.length + size ∨
      body.length + size ≤ limit.toNat ∧ u64Bound ≤ pos + size + 2) :
    dataTurn .dev input limit body pos size = .error .panic := by
  have hpanic : ∀ a b : Nat, u64Bound ≤ a + b → addU64 (ε := HttpError) .dev a b = .error .panic := by
    intro a b hab
    unfold addU64
    rw [if_neg (Nat.not_lt.mpr hab)]
  unfold dataTurn
  rcases h with hsum | ⟨hlimit, hend⟩
  · rw [hpanic _ _ hsum]
    rfl
  · have hfits : body.length + size < u64Bound := Nat.lt_of_le_of_lt hlimit limit.toNat_lt
    rw [addU64_ok _ _ _ hfits]
    simp only [ok_bind]
    rw [if_neg (Nat.not_lt.mpr hlimit)]
    by_cases hpos : pos + size < u64Bound
    · rw [addU64_ok _ _ _ hpos]
      simp only [ok_bind]
      rw [hpanic _ _ hend]
      rfl
    · rw [hpanic _ _ (Nat.not_lt.mp hpos)]
      rfl

end Overflow

/-- **No overflow, no panic.** The decoder is safe exactly on the inputs in which no size line makes a
sum overflow. -/
theorem decode_safe_iff (input : Bytes) (limit : UInt64) (hlen : input.length < u64Bound) :
    Safe input limit ↔ ¬ Overflows input limit := by
  constructor
  · rintro hsafe ⟨pre, body, line, tail, n, rfl, hrow, hlimit, hline, hn, hover⟩
    have hturn : decodeTurn .dev (pre ++ (line ++ crlf ++ tail)) limit (body, pre.length) =
        .error .panic := by
      rw [decodeTurn_line _ _ _ _ _ _ _ hline, if_neg hn]
      exact dataTurn_overflows limit body _ _ n hover
    have hpanic := decode_behind_row .dev limit pre body _ hrow hlen hlimit _ (.inr ⟨_, hturn, rfl⟩)
    rcases hsafe .dev with ⟨r, hok⟩ | ⟨e, herror⟩
    · rw [hpanic] at hok
      cases hok
    · rw [hpanic] at herror
      cases herror
  · intro hno profile
    obtain ⟨⟨body, pos⟩, ⟨pre, rest, rfl, rfl, hrow, hlimit⟩, hends⟩ :=
      decode_ends_row profile limit input hlen
    have hturn := decodeTurn_safe profile limit pre body rest fun line tail n hrest hline hn => by
      subst hrest
      constructor
      · by_contra hover
        exact hno ⟨pre, body, line, tail, n, rfl, hrow, hlimit, hline, hn, .inl (Nat.not_lt.mp hover)⟩
      · intro hfits
        by_contra hover
        exact hno ⟨pre, body, line, tail, n, rfl, hrow, hlimit, hline, hn,
          .inr ⟨hfits, Nat.not_lt.mp hover⟩⟩
    rcases hends with ⟨b, -, hr⟩ | ⟨e, he, hr⟩
    · exact .inl ⟨b, hr⟩
    · rcases hturn with ⟨r, hok⟩ | ⟨e', herror⟩
      · rw [he] at hok
        cases hok
      · rw [he] at herror
        cases herror
        exact .inr ⟨e', hr⟩

theorem decode_safe_iff_short : ¬ Overflows (ascii "3\r\nabc\r\n0\r\n\r\n") 8 := by
  refine (decode_safe_iff _ 8 (by decide)).mp fun profile => .inl ⟨.complete (ascii "abc") 13, ?_⟩
  cases profile <;> decide

/-- A chunk of two bytes, and then a size of `2^64 - 2`: one build overflows, and the other one wraps
around to a slice that ends before it starts. -/
theorem large_size_panics : ¬ Safe (ascii "2\r\nab\r\nfffffffffffffffe\r\n") 8 := by
  have hpanic : ∀ profile, decodeChunked profile (ascii "2\r\nab\r\nfffffffffffffffe\r\n") 8 =
      .error .panic := by
    intro profile
    cases profile <;> decide
  intro hsafe
  rcases hsafe .release with ⟨r, h⟩ | ⟨e, h⟩
  · rw [hpanic] at h
    cases h
  · rw [hpanic] at h
    cases h

end Capcurl.ChunkedCodec
