import Capcurl.Core.Daemon
import Capcurl.Spec.Chunks

/-! # The chunked decoder, and the loop that feeds it -/

namespace Capcurl.Chunked

open Lib Http Capcurl.Core Spec

/-! ## A chunk with data -/

section Data

variable (profile : Profile) (limit : UInt64) (pre body : Bytes) (size : Nat)

theorem sums_exact (pos size dataEnd chunkEnd : Nat) (hpos : pos < u64Bound) (hsize : size < u64Bound)
    (hdata : addU64 (ε := HttpError) profile pos size = .ok dataEnd)
    (hchunk : addU64 (ε := HttpError) profile dataEnd 2 = .ok chunkEnd) (hle : pos ≤ dataEnd)
    (hle' : dataEnd ≤ chunkEnd) : dataEnd = pos + size ∧ chunkEnd = pos + size + 2 := by
  have h2 : 2 < u64Bound := by decide
  rcases addU64_cases profile pos size dataEnd hpos hsize hdata with ⟨hlt, rfl⟩ | ⟨-, heq⟩
  · rcases addU64_cases profile (pos + size) 2 chunkEnd hlt h2 hchunk with ⟨-, rfl⟩ | ⟨-, heq⟩
    · exact ⟨rfl, rfl⟩
    · omega
  · omega

theorem dataTurn_taken (rest : Bytes) (hlen : (pre ++ rest).length < u64Bound)
    (hbody : body.length ≤ pre.length) (hsize : size < u64Bound) (st : ChunkState)
    (h : dataTurn profile (pre ++ rest) limit body pre.length size = .ok (.inr st)) :
    ∃ data tail, rest = data ++ crlf ++ tail ∧ data.length = size ∧
      body.length + size ≤ limit.toNat ∧ st = (body ++ data, pre.length + size + 2) := by
  rw [List.length_append] at hlen
  unfold dataTurn at h
  simp only [bind_eq_ok, throw_bind_else_eq_ok] at h
  obtain ⟨total, htotal, hlimit, dataEnd, hdataEnd, chunkEnd, hchunkEnd, h⟩ := h
  split at h
  · cases h
  · simp only [bind_eq_ok, throw_bind_else_eq_ok, pure_eq_ok, ne_eq, not_not] at h
    obtain ⟨terminator, hterm, hcrlf, data, hdata, advance, hadvance, next, hnext, hst⟩ := h
    have hle := ((slice_eq_ok_iff _ _ _ _).mp hterm).1
    have hle' := ((slice_eq_ok_iff _ _ _ _).mp hdata).1
    obtain ⟨rfl, rfl⟩ := sums_exact profile _ _ _ _ (by omega) hsize hdataEnd hchunkEnd hle' hle
    rw [Nat.add_assoc, slice_behind, slice_eq_ok_iff] at hterm
    rw [← Nat.add_zero pre.length, Nat.add_assoc, Nat.zero_add, slice_behind, slice_eq_ok_iff] at hdata
    obtain ⟨-, hthere, hterm⟩ := hterm
    rw [addU64_ok _ _ _ (by omega), Except.ok.injEq] at htotal hadvance
    subst htotal hadvance
    rw [addU64_ok _ _ _ (by omega), Except.ok.injEq] at hnext
    refine ⟨rest.take size, rest.drop (size + 2), ?_, ?_, by omega, ?_⟩
    · have hmid : (rest.drop size).take 2 = crlf := by
        rw [← hcrlf, hterm, List.drop_take, Nat.add_sub_cancel_left]
      rw [← hmid, ← List.drop_drop, List.append_assoc, List.take_append_drop, List.take_append_drop]
    · rw [List.length_take]
      omega
    · have hdata' : data = rest.take size := by simpa using hdata.2.2
      rw [← Sum.inr.inj hst, hdata', ← hnext]
      rfl

theorem dataTurn_take (data tail : Bytes) (hlen : (pre ++ (data ++ crlf ++ tail)).length < u64Bound)
    (hbody : body.length ≤ pre.length) (hlimit : body.length + data.length ≤ limit.toNat) :
    dataTurn profile (pre ++ (data ++ crlf ++ tail)) limit body pre.length data.length =
      .ok (.inr (body ++ data, pre.length + data.length + 2)) := by
  have hall : (pre ++ (data ++ crlf ++ tail)).length = pre.length + data.length + 2 + tail.length := by
    simp
    omega
  have hterm : slice (ε := HttpError) (pre ++ (data ++ crlf ++ tail)) (pre.length + data.length)
      (pre.length + data.length + 2) = .ok crlf := by
    rw [Nat.add_assoc, slice_behind, slice_ok _ _ _ (by omega) (by simp)]
    rw [List.drop_take, List.append_assoc, List.drop_left, Nat.add_sub_cancel_left]
    rfl
  have hdata : slice (ε := HttpError) (pre ++ (data ++ crlf ++ tail)) pre.length
      (pre.length + data.length) = .ok data := by
    have h := slice_behind (ε := HttpError) pre (data ++ crlf ++ tail) 0 data.length
    rw [Nat.add_zero] at h
    rw [h, slice_ok _ _ _ (by omega) (by simp)]
    simp
  unfold dataTurn
  rw [addU64_ok _ _ _ (by omega), addU64_ok _ _ _ (by omega)]
  simp only [ok_bind]
  rw [if_neg (by omega), addU64_ok _ _ _ (by omega)]
  simp only [ok_bind]
  rw [if_neg (by omega), hterm]
  simp only [ok_bind, ne_eq, not_true_eq_false, if_false]
  rw [hdata, addU64_ok _ _ _ (by omega)]
  simp only [ok_bind]
  rw [addU64_ok _ _ _ (by omega)]
  rfl

theorem dataTurn_wait (rest : Bytes) (hbound : pre.length + size + 2 < u64Bound)
    (hbody : body.length ≤ pre.length) (hlimit : body.length + size ≤ limit.toNat)
    (hshort : rest.length < size + 2) :
    dataTurn profile (pre ++ rest) limit body pre.length size = .ok (.inl .needMore) := by
  unfold dataTurn
  rw [addU64_ok _ _ _ (by omega), addU64_ok _ _ _ (by omega)]
  simp only [ok_bind]
  rw [if_neg (by omega), addU64_ok _ _ _ (by omega)]
  simp only [ok_bind]
  rw [if_pos (by rw [List.length_append]; omega)]
  rfl

end Data

/-! ## More input does not change a verdict -/

/-- What the first run decides, the second one decides alike. -/
def Settles {α : Type} (x y : Except (Halt HttpError) (ChunkedOutcome ⊕ α)) : Prop :=
  x = .ok (.inl .needMore) ∨ y = x

theorem settles_same {α : Type} (x : Except (Halt HttpError) (ChunkedOutcome ⊕ α)) : Settles x x :=
  .inr rfl

theorem settles_bind {α β : Type} (x : Except (Halt HttpError) β)
    (f g : β → Except (Halt HttpError) (ChunkedOutcome ⊕ α))
    (h : ∀ b, x = .ok b → Settles (f b) (g b)) : Settles (x >>= f) (x >>= g) := by
  cases x with
  | error e => exact settles_same _
  | ok b => exact h b rfl

theorem settles_ite {α : Type} {c : Prop} [Decidable c]
    {x x' y y' : Except (Halt HttpError) (ChunkedOutcome ⊕ α)} (hx : c → Settles x x')
    (hy : ¬ c → Settles y y') : Settles (if c then x else y) (if c then x' else y') := by
  by_cases hc : c
  · rw [if_pos hc, if_pos hc]
    exact hx hc
  · rw [if_neg hc, if_neg hc]
    exact hy hc

section More

variable (profile : Profile) (limit : UInt64) (input s body : Bytes)

theorem dataTurn_append (pos size : Nat) :
    Settles (dataTurn profile input limit body pos size)
      (dataTurn profile (input ++ s) limit body pos size) := by
  unfold dataTurn
  refine settles_bind _ _ _ fun total _ => settles_ite (fun _ => settles_same _) fun _ => ?_
  refine settles_bind _ _ _ fun dataEnd _ => settles_bind _ _ _ fun chunkEnd _ => ?_
  by_cases hshort : input.length < chunkEnd
  · exact .inl (if_pos hshort)
  · rw [if_neg hshort, if_neg (by rw [List.length_append]; omega), slice_append _ _ _ _ (by omega)]
    refine settles_bind _ _ _ fun terminator hterm => settles_ite (fun _ => settles_same _) fun _ => ?_
    have hle := (slice_eq_ok_iff _ _ _ _).mp hterm
    rw [slice_append _ _ _ _ (by omega)]
    exact settles_same _

theorem lastTurn_append (pos : Nat) (hpos : pos ≤ input.length) :
    Settles (lastTurn input body pos) (lastTurn (input ++ s) body pos) := by
  unfold lastTurn
  rw [slice_from _ _ hpos, slice_from_append _ _ _ hpos]
  simp only [ok_bind]
  cases hfind : findCrlf (input.drop pos) with
  | none => exact .inl rfl
  | some i =>
    unfold findCrlf
    rw [findSeq_append _ _ s i crlf_ne_nil hfind]
    exact settles_same _

theorem decodeTurn_append (pos : Nat) (hpos : pos ≤ input.length) :
    Settles (decodeTurn profile input limit (body, pos))
      (decodeTurn profile (input ++ s) limit (body, pos)) := by
  simp only [decodeTurn]
  rw [slice_from _ _ hpos, slice_from_append _ _ _ hpos]
  simp only [ok_bind]
  cases hfind : findCrlf (input.drop pos) with
  | none => exact .inl rfl
  | some i =>
    have hle := findSeq_le crlf _ i crlf_ne_nil hfind
    rw [crlf_length, List.length_drop] at hle
    unfold findCrlf
    rw [findSeq_append _ _ s i crlf_ne_nil hfind]
    simp only
    rw [slice_append _ _ _ _ (by omega)]
    refine settles_bind _ _ _ fun sizeLine _ => settles_ite (fun _ => settles_same _) fun _ => ?_
    refine settles_bind _ _ _ fun size _ => settles_ite (fun _ => ?_) fun _ => ?_
    · exact lastTurn_append input s body _ (by omega)
    · exact dataTurn_append profile limit input s body _ size

end More

/-! ## A turn, by the text it stands before -/

section Turn

variable (profile : Profile) (limit : UInt64) (pre body : Bytes)

theorem decodeTurn_line (line tail : Bytes) (n : Nat) (hline : IsSize line n) :
    decodeTurn profile (pre ++ (line ++ crlf ++ tail)) limit (body, pre.length) =
      if n = 0 then lastTurn (pre ++ (line ++ crlf ++ tail)) body (pre ++ line ++ crlf).length
      else dataTurn profile (pre ++ (line ++ crlf ++ tail)) limit body (pre ++ line ++ crlf).length n := by
  have hsizeLine : slice (ε := HttpError) (pre ++ (line ++ crlf ++ tail)) pre.length
      (pre.length + line.length) = .ok line := by
    have h := slice_behind (ε := HttpError) pre (line ++ crlf ++ tail) 0 line.length
    rw [Nat.add_zero] at h
    rw [h, slice_ok _ _ _ (by omega) (by simp)]
    simp
  have hext : line.contains (ch ';') = false := by
    rw [List.contains_eq_mem, decide_eq_false_iff_not]
    exact isSize_no line n hline _ (by decide)
  have hsize : (parseChunkSize line).mapError (Halt.err) = .ok n :=
    (mapError_eq_ok _ _ _).mpr ((parseChunkSize_iff line n).mpr hline)
  have hpos : (pre ++ line ++ crlf).length = pre.length + line.length + 2 := by
    simp
    omega
  simp only [decodeTurn]
  rw [slice_from _ _ (by simp), List.drop_left]
  simp only [ok_bind, findCrlf_size line tail n hline, hsizeLine, hext, Bool.false_eq_true, if_false,
    hsize, hpos]

theorem decodeTurn_cases (rest : Bytes) :
    (findCrlf rest = none ∧
        decodeTurn profile (pre ++ rest) limit (body, pre.length) = .ok (.inl .needMore)) ∨
      (∃ line tail n, rest = line ++ crlf ++ tail ∧ IsSize line n) ∨
      ∃ e, decodeTurn profile (pre ++ rest) limit (body, pre.length) = .error (.err e) := by
  simp only [decodeTurn]
  rw [slice_from _ _ (by simp), List.drop_left]
  simp only [ok_bind]
  cases hfind : findCrlf rest with
  | none => exact .inl ⟨rfl, rfl⟩
  | some i =>
    right
    have hsplit := findSeq_split crlf rest i crlf_ne_nil hfind
    have hsizeLine : slice (ε := HttpError) (pre ++ rest) pre.length (pre.length + i) =
        .ok (rest.take i) := by
      have h := slice_behind (ε := HttpError) pre rest 0 i
      have hle := findSeq_le crlf rest i crlf_ne_nil hfind
      rw [Nat.add_zero] at h
      rw [h, slice_ok _ _ _ (by omega) (by omega), List.drop_zero]
    simp only [hsizeLine, ok_bind]
    split
    · exact .inr ⟨_, rfl⟩
    · cases hparse : parseChunkSize (rest.take i) with
      | error e => exact .inr ⟨e, rfl⟩
      | ok n => exact .inl ⟨_, _, n, hsplit, (parseChunkSize_iff _ _).mp hparse⟩

theorem decodeTurn_inv (rest : Bytes) (r : ChunkedOutcome ⊕ ChunkState)
    (h : decodeTurn profile (pre ++ rest) limit (body, pre.length) = .ok r) :
    r = .inl .needMore ∨ ∃ line tail n, rest = line ++ crlf ++ tail ∧ IsSize line n := by
  rcases decodeTurn_cases profile limit pre body rest with ⟨-, hwait⟩ | hline | ⟨e, herror⟩
  · rw [hwait] at h
    exact .inl (Except.ok.inj h).symm
  · exact .inr hline
  · rw [herror] at h
    cases h

theorem lastTurn_complete (tail : Bytes) (b : Bytes) (c : Nat)
    (h : lastTurn (pre ++ tail) body pre.length = .ok (.inl (.complete b c))) :
    (∃ tail', tail = crlf ++ tail') ∧ b = body ∧ c = (pre ++ crlf).length := by
  unfold lastTurn at h
  rw [slice_from _ _ (by simp), List.drop_left] at h
  simp only [ok_bind] at h
  split at h
  · cases h
  · rename_i hfind
    have hsplit := findSeq_split crlf tail 0 crlf_ne_nil hfind
    cases h
    exact ⟨⟨_, hsplit⟩, rfl, by simp⟩
  · simp at h

theorem decodeTurn_taken (rest : Bytes) (hlen : (pre ++ rest).length < u64Bound)
    (hbody : body.length ≤ pre.length) (st : ChunkState)
    (h : decodeTurn profile (pre ++ rest) limit (body, pre.length) = .ok (.inr st)) :
    ∃ line data tail, rest = line ++ crlf ++ (data ++ crlf) ++ tail ∧ IsSize line data.length ∧
      data ≠ [] ∧ body.length + data.length ≤ limit.toNat ∧
      st = (body ++ data, (pre ++ (line ++ crlf ++ (data ++ crlf))).length) := by
  rcases decodeTurn_inv profile limit pre body rest _ h with h' | ⟨line, tail, n, rfl, hline⟩
  · simp at h'
  · rw [decodeTurn_line _ _ _ _ _ _ _ hline] at h
    split at h
    · unfold lastTurn at h
      rw [bind_eq_ok] at h
      obtain ⟨_, -, h⟩ := h
      split at h <;> simp at h
    · rename_i hn
      have hassoc : pre ++ (line ++ crlf ++ tail) = pre ++ line ++ crlf ++ tail := by simp
      rw [hassoc] at h hlen
      obtain ⟨data, tail', rfl, rfl, hlimit, rfl⟩ := dataTurn_taken profile limit _ body n tail hlen
        (by simp; omega) (isSize_lt line n hline) st h
      refine ⟨line, data, tail', by simp, hline, fun he => hn (by simp [he]), hlimit, ?_⟩
      rw [Prod.mk.injEq]
      exact ⟨rfl, by simp; omega⟩

theorem decodeTurn_take (line data tail : Bytes) (hline : IsSize line data.length) (hne : data ≠ [])
    (hlen : (pre ++ (line ++ crlf ++ (data ++ crlf) ++ tail)).length < u64Bound)
    (hbody : body.length ≤ pre.length) (hlimit : body.length + data.length ≤ limit.toNat) :
    decodeTurn profile (pre ++ (line ++ crlf ++ (data ++ crlf) ++ tail)) limit (body, pre.length) =
      .ok (.inr (body ++ data, (pre ++ (line ++ crlf ++ (data ++ crlf))).length)) := by
  have hassoc : pre ++ (line ++ crlf ++ (data ++ crlf ++ tail)) =
      pre ++ line ++ crlf ++ (data ++ crlf ++ tail) := by simp
  have hn : ¬ data.length = 0 := fun h => hne (List.length_eq_zero_iff.mp h)
  rw [List.append_assoc (line ++ crlf)] at hlen ⊢
  rw [decodeTurn_line _ _ _ _ _ _ _ hline, if_neg hn]
  rw [hassoc] at hlen ⊢
  rw [dataTurn_take profile limit _ body data tail hlen (by simp; omega) hlimit]
  congr 3
  simp
  omega

theorem decodeTurn_complete (rest : Bytes) (b : Bytes) (c : Nat)
    (h : decodeTurn profile (pre ++ rest) limit (body, pre.length) = .ok (.inl (.complete b c))) :
    ∃ line tail, rest = line ++ crlf ++ crlf ++ tail ∧ IsSize line 0 ∧ b = body ∧
      c = (pre ++ (line ++ crlf ++ crlf)).length := by
  rcases decodeTurn_inv profile limit pre body rest _ h with h' | ⟨line, tail, n, rfl, hline⟩
  · simp at h'
  · rw [decodeTurn_line _ _ _ _ _ _ _ hline] at h
    split at h
    · rename_i hn
      subst hn
      have hassoc : pre ++ (line ++ crlf ++ tail) = pre ++ line ++ crlf ++ tail := by simp
      rw [hassoc] at h
      obtain ⟨⟨tail', rfl⟩, rfl, rfl⟩ := lastTurn_complete _ body tail b c h
      exact ⟨line, tail', by simp, hline, rfl, by simp⟩
    · exfalso
      unfold dataTurn at h
      simp only [bind_eq_ok, throw_bind_else_eq_ok] at h
      obtain ⟨_, -, -, _, -, _, -, h⟩ := h
      split at h
      · cases h
      · simp only [bind_eq_ok, throw_bind_else_eq_ok, pure_eq_ok, reduceCtorEq, and_false,
          exists_false] at h

end Turn

/-! ## A run of the decoder -/

section Run

variable (profile : Profile) (limit : UInt64)

/-- What has been taken so far is a row of chunks, and holds the body so far. -/
def Taken (input : Bytes) (st : ChunkState) : Prop :=
  ∃ pre rest, input = pre ++ rest ∧ st.2 = pre.length ∧ st.1.length ≤ pre.length ∧
    st.1.length ≤ limit.toNat ∧ ∀ e b, Encodes e b → Encodes (pre ++ e) (st.1 ++ b)

theorem taken_start (input : Bytes) : Taken limit input ([], 0) :=
  ⟨[], input, rfl, rfl, Nat.le_refl 0, Nat.zero_le _, fun _ _ h => h⟩

theorem taken_step (input : Bytes) (hlen : input.length < u64Bound) (st st' : ChunkState)
    (hinv : Taken limit input st) (h : decodeTurn profile input limit st = .ok (.inr st')) :
    Taken limit input st' ∧ input.length - st'.2 < input.length - st.2 := by
  obtain ⟨body, pos⟩ := st
  obtain ⟨pre, rest, rfl, rfl, hbody, -, hchunks⟩ := hinv
  obtain ⟨line, data, tail, rfl, hline, hne, hlimit, rfl⟩ :=
    decodeTurn_taken profile limit pre body rest hlen hbody st' h
  refine ⟨⟨pre ++ (line ++ crlf ++ (data ++ crlf)), tail, by simp, rfl, ?_, ?_, ?_⟩, ?_⟩
  · simp only [List.length_append] at hbody ⊢
    omega
  · rw [List.length_append]
    exact hlimit
  · intro e b he
    have hchunk := hchunks _ _ (.chunk hline hne he)
    simpa using hchunk
  · simp
    omega

theorem decode_ends (input : Bytes) (hlen : input.length < u64Bound) :
    ∃ st, Taken limit input st ∧
      Ends (decodeTurn profile input limit) st (decodeChunked profile input limit) :=
  loop_ends _ (Taken limit input) (fun st => input.length - st.2) (taken_step profile limit input hlen)
    _ _ (taken_start limit input) (by simp)

theorem decode_append (input s : Bytes) (hlen : (input ++ s).length < u64Bound) :
    decodeChunked profile input limit = .ok .needMore ∨
      decodeChunked profile (input ++ s) limit = decodeChunked profile input limit := by
  refine loop_agrees _ _ (Taken limit input) (fun st => input.length - st.2) _
    (taken_step profile limit input (by rw [List.length_append] at hlen; omega)) ?_ _ _ _
    (taken_start limit input) (by simp) (by simp)
  rintro ⟨body, pos⟩ ⟨pre, rest, rfl, rfl, -⟩
  exact decodeTurn_append profile limit (pre ++ rest) s body _ (by simp)

theorem decode_complete (input : Bytes) (hlen : input.length < u64Bound) (b : Bytes) (c : Nat)
    (h : decodeChunked profile input limit = .ok (.complete b c)) :
    ∃ e rest, input = e ++ rest ∧ Encodes e b ∧ b.length ≤ limit.toNat ∧ c = e.length := by
  obtain ⟨⟨body, pos⟩, ⟨pre, rest, rfl, rfl, -, hlimit, hchunks⟩, hends⟩ :=
    decode_ends profile limit input hlen
  have hturn : decodeTurn profile (pre ++ rest) limit (body, pre.length) =
      .ok (.inl (.complete b c)) := by
    rcases hends with ⟨b', hb', hr⟩ | ⟨e, -, hr⟩
    · rw [h] at hr
      rw [hb', Except.ok.inj hr]
    · rw [h] at hr
      cases hr
  obtain ⟨line, tail, rfl, hline, rfl, rfl⟩ := decodeTurn_complete profile limit pre body rest b c hturn
  have hwhole := hchunks _ _ (.last hline)
  rw [List.append_nil] at hwhole
  exact ⟨pre ++ (line ++ crlf ++ crlf), tail, by simp, hwhole, hlimit, rfl⟩

theorem loop_encodes (e b : Bytes) (h : Encodes e b) (pre body s : Bytes) (fuel : Nat)
    (hlen : (pre ++ (e ++ s)).length < u64Bound) (hbody : body.length ≤ pre.length)
    (hlimit : body.length + b.length ≤ limit.toNat) (hfuel : e.length < fuel) :
    loop (decodeTurn profile (pre ++ (e ++ s)) limit) fuel (body, pre.length) =
      .ok (.complete (body ++ b) (pre ++ e).length) := by
  obtain ⟨fuel, rfl⟩ : ∃ n, fuel = n + 1 := ⟨fuel - 1, by omega⟩
  induction h generalizing pre body fuel with
  | @last line hline =>
    have hturn : decodeTurn profile (pre ++ (line ++ crlf ++ crlf ++ s)) limit (body, pre.length) =
        .ok (.inl (.complete body (pre ++ (line ++ crlf ++ crlf)).length)) := by
      have hassoc : pre ++ (line ++ crlf ++ (crlf ++ s)) = pre ++ line ++ crlf ++ (crlf ++ s) := by simp
      have hfind : findCrlf (crlf ++ s) = some 0 :=
        findSeq_cons_here _ _ _ (List.prefix_append crlf s)
      rw [List.append_assoc (line ++ crlf), decodeTurn_line _ _ _ _ _ _ _ hline, if_pos rfl, hassoc,
        lastTurn, slice_from _ _ (by simp), List.drop_left]
      simp only [ok_bind, hfind]
      simp [pure, Except.pure]
      omega
    rw [loop_return _ fuel _ _ hturn, List.append_nil]
  | @chunk line data rest body' hline hne hrest ih =>
    rw [List.length_append] at hlimit hfuel
    have hassoc : pre ++ (line ++ crlf ++ (data ++ crlf) ++ rest ++ s) =
        pre ++ (line ++ crlf ++ (data ++ crlf)) ++ (rest ++ s) := by simp
    have hturn : decodeTurn profile (pre ++ (line ++ crlf ++ (data ++ crlf) ++ rest ++ s)) limit
        (body, pre.length) = .ok (.inr (body ++ data, (pre ++ (line ++ crlf ++ (data ++ crlf))).length)) := by
      rw [List.append_assoc _ rest] at hlen ⊢
      exact decodeTurn_take profile limit pre body line data (rest ++ s) hline hne hlen hbody (by omega)
    have hpos : 0 < fuel := by simp at hfuel; omega
    obtain ⟨fuel, rfl⟩ : ∃ n, fuel = n + 1 := ⟨fuel - 1, by omega⟩
    rw [loop_turn _ _ _ _ hturn]
    rw [hassoc] at hlen ⊢
    rw [ih (pre ++ (line ++ crlf ++ (data ++ crlf))) (body ++ data) hlen (by simp; omega)
      (by rw [List.length_append]; omega) fuel (by simp at hfuel; omega)]
    simp

theorem decode_encodes (e b s : Bytes) (h : Encodes e b) (hlen : (e ++ s).length < u64Bound)
    (hlimit : b.length ≤ limit.toNat) :
    decodeChunked profile (e ++ s) limit = .ok (.complete b e.length) := by
  have hloop := loop_encodes profile limit e b h [] [] s ((e ++ s).length + 1) hlen (Nat.le_refl _)
    (by simpa using hlimit) (by rw [List.length_append]; omega)
  exact hloop

theorem decodeTurn_prefix (pre body q x line tail : Bytes) (n : Nat) (hline : IsSize line n)
    (h : q ++ x = line ++ crlf ++ tail) :
    decodeTurn profile (pre ++ q) limit (body, pre.length) = .ok (.inl .needMore) ∨
      ∃ q', q = line ++ crlf ++ q' ∧ tail = q' ++ x := by
  cases hfind : findCrlf q with
  | none =>
    left
    simp only [decodeTurn]
    rw [slice_from _ _ (by simp), List.drop_left]
    simp only [ok_bind, hfind]
    rfl
  | some i =>
    right
    have hwhole := findSeq_append crlf q x i crlf_ne_nil hfind
    have hsize := findCrlf_size line tail n hline
    rw [h] at hwhole
    unfold findCrlf at hsize
    rw [hwhole, Option.some.injEq] at hsize
    have hle := findSeq_le crlf q i crlf_ne_nil hfind
    exact prefix_split q x _ _ h (by rw [List.length_append]; omega)

theorem loop_prefix (e b : Bytes) (h : Encodes e b) (pre body q x : Bytes) (fuel : Nat)
    (hq : q ++ x = e) (hx : x ≠ []) (hlen : (pre ++ e).length < u64Bound)
    (hbody : body.length ≤ pre.length) (hlimit : body.length + b.length ≤ limit.toNat)
    (hfuel : q.length < fuel) :
    loop (decodeTurn profile (pre ++ q) limit) fuel (body, pre.length) = .ok .needMore := by
  obtain ⟨fuel, rfl⟩ : ∃ n, fuel = n + 1 := ⟨fuel - 1, by omega⟩
  have hxpos := List.length_pos_of_ne_nil hx
  induction h generalizing pre body q fuel with
  | @last line hline =>
    apply loop_return
    rcases decodeTurn_prefix profile limit pre body q x line crlf 0 hline hq with h | ⟨q', rfl, hq'⟩
    · exact h
    · have hshort := congrArg List.length hq'
      rw [crlf_length, List.length_append] at hshort
      have hassoc : pre ++ (line ++ crlf ++ q') = pre ++ line ++ crlf ++ q' := by simp
      have hfind : findCrlf q' = none := by
        cases hfind : findCrlf q' with
        | none => rfl
        | some i =>
          have := findSeq_le crlf q' i crlf_ne_nil hfind
          rw [crlf_length] at this
          omega
      rw [decodeTurn_line _ _ _ _ _ _ _ hline, if_pos rfl, hassoc, lastTurn, slice_from _ _ (by simp),
        List.drop_left]
      simp only [ok_bind, hfind]
      rfl
  | @chunk line data rest body' hline hne hrest ih =>
    have hn : ¬ data.length = 0 := fun h => hne (List.length_eq_zero_iff.mp h)
    rw [List.length_append] at hlimit
    rcases decodeTurn_prefix profile limit pre body q x line _ _ hline
      (hq.trans (List.append_assoc _ _ _)) with h | ⟨q', rfl, hq'⟩
    · exact loop_return _ fuel _ _ h
    · have hassoc : pre ++ (line ++ crlf ++ q') = pre ++ line ++ crlf ++ q' := by simp
      simp only [List.length_append, crlf_length] at hlen
      rcases Nat.lt_or_ge q'.length (data.length + 2) with hlt | hge
      · apply loop_return
        rw [decodeTurn_line _ _ _ _ _ _ _ hline, if_neg hn, hassoc]
        exact dataTurn_wait profile limit _ body _ q' (by simp; omega) (by simp; omega) (by omega) hlt
      · obtain ⟨q'', rfl, hrest'⟩ := prefix_split q' x (data ++ crlf) rest hq'.symm (by simpa using hge)
        have hlen' : (pre ++ (line ++ crlf ++ (data ++ crlf) ++ q'')).length < u64Bound := by
          have := congrArg List.length hrest'
          simp only [List.length_append, crlf_length] at this ⊢
          omega
        have hturn := decodeTurn_take profile limit pre body line data q'' hline hne hlen' hbody (by omega)
        have hpos : 0 < fuel := by simp at hfuel; omega
        obtain ⟨fuel, rfl⟩ : ∃ n, fuel = n + 1 := ⟨fuel - 1, by omega⟩
        have hassoc' : pre ++ (line ++ crlf ++ (data ++ crlf ++ q'')) =
            pre ++ (line ++ crlf ++ (data ++ crlf) ++ q'') := by simp
        rw [hassoc', loop_turn _ _ _ _ hturn, ← List.append_assoc pre]
        refine ih (pre ++ (line ++ crlf ++ (data ++ crlf))) (body ++ data) q'' hrest'.symm ?_ ?_ ?_ fuel ?_
        · simp only [List.length_append, crlf_length]
          omega
        · simp only [List.length_append, crlf_length]
          omega
        · rw [List.length_append]
          omega
        · simp only [List.length_append, crlf_length] at hfuel
          omega

theorem decode_prefix (e b q x : Bytes) (h : Encodes e b) (hq : q ++ x = e) (hx : x ≠ [])
    (hlen : e.length < u64Bound) (hlimit : b.length ≤ limit.toNat) :
    decodeChunked profile q limit = .ok .needMore :=
  loop_prefix profile limit e b h [] [] q x (q.length + 1) hq hx hlen (Nat.le_refl _)
    (by simpa using hlimit) (Nat.lt_succ_self _)

end Run

end Capcurl.Chunked
