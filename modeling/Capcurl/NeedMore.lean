import Capcurl.ChunkedCodec

/-! # What the chunked decoder waits for -/

namespace Capcurl.NeedMore

open Lib Http Spec Chunked ChunkedCodec

/-- Some bytes after the input make it a complete body within the limit. -/
def Viable (profile : Profile) (limit : UInt64) (input : Bytes) : Prop :=
  ∃ s b c, (input ++ s).length ≤ maxSlice ∧
    decodeChunked profile (input ++ s) limit = .ok (.complete b c)

/-- A CRLF that has not arrived in full. -/
def PartCrlf (part : Bytes) : Prop := part = [] ∨ part = [13]

/-- What a body still takes when `taken` bytes of it hold `decoded` and then comes a chunk of size
`n`: the data is within the limit, and all of the body within what a slice can be. -/
def Fits (limit : UInt64) (taken decoded n : Nat) : Prop :=
  if n = 0 then taken + 4 ≤ maxSlice
  else decoded + n ≤ limit.toNat ∧ taken + n + 9 ≤ maxSlice

/-- What can stand behind some chunks of a body that is still arriving. -/
inductive Arriving (limit : UInt64) (pre body : Bytes) : Bytes → Prop where
  | nothing (hfits : pre.length + 5 ≤ maxSlice) : Arriving limit pre body []
  | size {digits part : Bytes} {n : Nat} (hline : IsSize digits n) (hpart : PartCrlf part)
    (hfits : Fits limit (pre ++ digits).length body.length n) : Arriving limit pre body (digits ++ part)
  | last {line part : Bytes} (hline : IsSize line 0) (hpart : PartCrlf part)
    (hfits : Fits limit (pre ++ line).length body.length 0) :
    Arriving limit pre body (line ++ crlf ++ part)
  | data {line data part : Bytes} {n : Nat} (hline : IsSize line n) (hn : n ≠ 0)
    (hpart : data.length < n ∧ part = [] ∨ data.length = n ∧ PartCrlf part)
    (hfits : Fits limit (pre ++ line).length body.length n) :
    Arriving limit pre body (line ++ crlf ++ (data ++ part))

/-- Whole chunks, and then something that can be continued. -/
def Continuable (limit : UInt64) (input : Bytes) : Prop :=
  ∃ pre body rest, input = pre ++ rest ∧ Row pre body ∧ body.length ≤ limit.toNat ∧
    Arriving limit pre body rest

/-! ## Continuing -/

theorem partCrlf_rest (part : Bytes) (h : PartCrlf part) :
    ∃ s, part ++ s = crlf ∧ s.length ≤ 2 := by
  rcases h with rfl | rfl
  · exact ⟨crlf, rfl, Nat.le_refl 2⟩
  · exact ⟨[10], rfl, by decide⟩

/-- The end of every body that the continuations have. -/
def lastChunk : Bytes := ascii "0" ++ crlf ++ crlf

theorem lastChunk_encodes : Encodes lastChunk [] :=
  .last ⟨by decide, by decide, List.all_eq_true.mp (by decide), by decide⟩

/-- What comes after a size line: the rest of the last chunk, or data, its end, and the last chunk. -/
def afterSize (n : Nat) (data : Bytes) : Bytes := if n = 0 then crlf else data ++ crlf ++ lastChunk

theorem afterSize_encodes (line data : Bytes) (n : Nat) (hline : IsSize line n) (hdata : data.length = n) :
    Encodes (line ++ crlf ++ afterSize n data) data := by
  unfold afterSize
  by_cases hn : n = 0
  · subst hn
    rw [if_pos rfl, List.length_eq_zero_iff.mp hdata]
    exact .last hline
  · subst hdata
    rw [if_neg hn]
    have hchunk := Encodes.chunk hline (fun h => hn (by rw [h]; rfl)) lastChunk_encodes
    simpa using hchunk

theorem afterSize_length (n : Nat) (data : Bytes) (hdata : data.length = n) :
    (afterSize n data).length = if n = 0 then 2 else n + 7 := by
  unfold afterSize
  split
  · rfl
  · rw [List.length_append, List.length_append, hdata, crlf_length]
    rfl

section Continue

variable (profile : Profile) (limit : UInt64) (pre body : Bytes)

theorem viable_of_encodes (rest s e b : Bytes) (hrow : Row pre body) (he : Encodes e b)
    (hrest : rest ++ s = e) (hlimit : body.length + b.length ≤ limit.toNat)
    (hlen : (pre ++ e).length ≤ maxSlice) : Viable profile limit (pre ++ rest) := by
  have hwhole := row_encodes pre body e b hrow he
  have hdecode := decode_encodes profile limit _ _ [] hwhole
    (by rw [List.append_nil]; exact Nat.lt_of_le_of_lt hlen (by decide))
    (by rw [List.length_append]; exact hlimit)
  refine ⟨s, body ++ b, (pre ++ e).length, ?_, ?_⟩
  · rw [List.append_assoc, hrest]
    exact hlen
  · rw [List.append_assoc, hrest]
    simpa using hdecode

theorem viable_of_size (line data rest s : Bytes) (n : Nat) (hrow : Row pre body)
    (hbody : body.length ≤ limit.toNat) (hline : IsSize line n) (hdata : data.length = n)
    (hrest : rest ++ s = line ++ crlf ++ afterSize n data)
    (hfits : Fits limit (pre ++ line).length body.length n) : Viable profile limit (pre ++ rest) := by
  refine viable_of_encodes profile limit pre body rest s _ data hrow
    (afterSize_encodes line data n hline hdata) hrest ?_ ?_
  · unfold Fits at hfits
    split at hfits
    · omega
    · omega
  · unfold Fits at hfits
    rw [List.length_append] at hfits
    rw [List.length_append, List.length_append, List.length_append, crlf_length, afterSize_length n data hdata]
    split at hfits
    · rename_i hn
      rw [if_pos hn]
      omega
    · rename_i hn
      rw [if_neg hn]
      omega

theorem viable_of_arriving (rest : Bytes) (hrow : Row pre body) (hbody : body.length ≤ limit.toNat)
    (h : Arriving limit pre body rest) : Viable profile limit (pre ++ rest) := by
  cases h with
  | nothing hfits =>
    refine viable_of_encodes profile limit pre body [] lastChunk lastChunk [] hrow lastChunk_encodes rfl
      (by simpa using hbody) ?_
    rw [List.length_append]
    exact hfits
  | @size digits part n hline hpart hfits =>
    obtain ⟨s, hs, -⟩ := partCrlf_rest part hpart
    refine viable_of_size profile limit pre body digits (List.replicate n (ch 'a')) (digits ++ part)
      (s ++ afterSize n (List.replicate n (ch 'a'))) n hrow hbody hline (List.length_replicate ..) ?_ hfits
    rw [← hs]
    simp
  | @last line part hline hpart hfits =>
    obtain ⟨s, hs, -⟩ := partCrlf_rest part hpart
    refine viable_of_size profile limit pre body line [] _ s 0 hrow hbody hline rfl ?_ hfits
    rw [List.append_assoc, hs]
    rfl
  | @data line data part n hline hn hpart hfits =>
    have hmore : ∃ more s, (data ++ more).length = n ∧ part ++ s = more ++ crlf := by
      rcases hpart with ⟨hlt, rfl⟩ | ⟨heq, hpart⟩
      · refine ⟨List.replicate (n - data.length) (ch 'a'), _, ?_, rfl⟩
        rw [List.length_append, List.length_replicate]
        omega
      · obtain ⟨s, hs, -⟩ := partCrlf_rest part hpart
        exact ⟨[], s, by simpa using heq, by simpa using hs⟩
    obtain ⟨more, s, hlen, hs⟩ := hmore
    refine viable_of_size profile limit pre body line (data ++ more) _ (s ++ lastChunk) n hrow hbody hline
      hlen ?_ hfits
    rw [afterSize, if_neg hn, List.append_assoc, List.append_assoc data, ← List.append_assoc part, hs]
    simp

end Continue

/-! ## What a body is before its last byte -/

theorem crlf_part (part x : Bytes) (h : part ++ x = crlf) (hx : x ≠ []) : PartCrlf part := by
  match part with
  | [] => exact .inl rfl
  | [a] =>
    have ha : a = 13 := by
      rw [List.singleton_append] at h
      exact (List.cons.inj h).1
    exact .inr (by rw [ha])
  | a :: b :: part =>
    have hlen := congrArg List.length h
    have hpos := List.length_pos_of_ne_nil hx
    rw [List.length_append, crlf_length] at hlen
    simp only [List.length_cons] at hlen
    omega

theorem line_prefix (q x line tail : Bytes) (h : q ++ x = line ++ crlf ++ tail) :
    (∃ m, line = q ++ m) ∨ (∃ part, PartCrlf part ∧ q = line ++ part) ∨
      ∃ q', q = line ++ crlf ++ q' ∧ tail = q' ++ x := by
  rcases Nat.lt_or_ge q.length line.length with hlt | hge
  · left
    rw [List.append_assoc] at h
    obtain ⟨m, hm, -⟩ := prefix_split line (crlf ++ tail) q x h.symm (Nat.le_of_lt hlt)
    exact ⟨m, hm⟩
  · rcases Nat.lt_or_ge q.length (line.length + 2) with hlt | hge'
    · right; left
      obtain ⟨part, rfl, hpart⟩ := prefix_split q x line (crlf ++ tail)
        (h.trans (List.append_assoc _ _ _)) hge
      rw [List.length_append] at hlt
      obtain ⟨y, hy, -⟩ := prefix_split crlf tail part x hpart (by rw [crlf_length]; omega)
      refine ⟨part, crlf_part part y hy.symm fun hnil => ?_, rfl⟩
      rw [hnil, List.append_nil] at hy
      rw [← hy, crlf_length] at hlt
      omega
    · right; right
      exact prefix_split q x _ _ h (by rw [List.length_append]; exact hge')

theorem encodes_length (e b : Bytes) (h : Encodes e b) : 5 ≤ e.length := by
  induction h with
  | last hline =>
    have hpos := List.length_pos_of_ne_nil hline.nonempty
    simp only [List.length_append, crlf_length]
    omega
  | chunk _ _ _ ih =>
    rw [List.length_append]
    omega

theorem value_prefix (q m : Bytes) : value 16 q ≤ value 16 (q ++ m) := by
  induction m using List.reverseRecOn with
  | nil => rw [List.append_nil]
  | append_singleton m b ih =>
    rw [← List.append_assoc, value_append]
    omega

theorem isSize_prefix (q m : Bytes) (n : Nat) (h : IsSize (q ++ m) n) (hq : q ≠ []) :
    IsSize q (value 16 q) ∧ value 16 q ≤ n := by
  have hshort := h.short
  rw [List.length_append] at hshort
  refine ⟨⟨hq, by omega, fun b hb => h.digits b (List.mem_append_left m hb), rfl⟩, ?_⟩
  rw [← h.denotes]
  exact value_prefix q m

section Arrive

variable (limit : UInt64) (pre body : Bytes)

theorem arriving_size (line q m : Bytes) (n : Nat) (hline : IsSize line n) (hm : line = q ++ m)
    (hlen : (pre ++ line).length + 4 ≤ maxSlice)
    (hfits : ∀ k ≤ n, Fits limit (pre ++ q).length body.length k) : Arriving limit pre body q := by
  by_cases hq : q = []
  · subst hq
    have hpos := List.length_pos_of_ne_nil hline.nonempty
    rw [List.length_append] at hlen
    exact .nothing (by omega)
  · subst hm
    obtain ⟨hsize, hle⟩ := isSize_prefix q m n hline hq
    rw [← List.append_nil q]
    exact .size hsize (.inl rfl) (hfits _ hle)

theorem fits_of_le (taken decoded n : Nat) (hlimit : decoded + n ≤ limit.toNat)
    (hlen : taken + n + 9 ≤ maxSlice) : Fits limit taken decoded n := by
  unfold Fits
  split
  · omega
  · exact ⟨hlimit, hlen⟩

theorem arriving_last (line q x : Bytes) (hline : IsSize line 0) (hq : q ++ x = line ++ crlf ++ crlf)
    (hx : x ≠ []) (hlen : (pre ++ (line ++ crlf ++ crlf)).length ≤ maxSlice) :
    Arriving limit pre body q := by
  have hfits : ∀ taken ≤ (pre ++ line).length, Fits limit taken body.length 0 := by
    intro taken htaken
    unfold Fits
    rw [if_pos rfl]
    simp only [List.length_append, crlf_length] at hlen htaken
    omega
  rcases line_prefix q x line crlf hq with ⟨m, hm⟩ | ⟨part, hpart, rfl⟩ | ⟨part, rfl, hpart⟩
  · refine arriving_size limit pre body line q m 0 hline hm ?_ fun k hk => ?_
    · simp only [List.length_append, crlf_length] at hlen ⊢
      omega
    · rw [Nat.le_zero.mp hk]
      exact hfits _ (by rw [hm]; simp)
  · exact .size hline hpart (hfits _ (Nat.le_refl _))
  · exact .last hline (crlf_part part x hpart.symm hx) (hfits _ (Nat.le_refl _))

theorem arriving_chunk (line data rest q x : Bytes) (hline : IsSize line data.length) (hne : data ≠ [])
    (hq : q ++ x = line ++ crlf ++ (data ++ crlf ++ rest))
    (hshort : q.length < (line ++ crlf ++ (data ++ crlf)).length) (hrest : 5 ≤ rest.length)
    (hlen : (pre ++ (line ++ crlf ++ (data ++ crlf) ++ rest)).length ≤ maxSlice)
    (hlimit : body.length + data.length ≤ limit.toNat) : Arriving limit pre body q := by
  simp only [List.length_append, crlf_length] at hlen hshort
  have hfits : ∀ taken ≤ (pre ++ line).length, ∀ k ≤ data.length, Fits limit taken body.length k := by
    intro taken htaken k hk
    rw [List.length_append] at htaken
    exact fits_of_le limit taken body.length k (by omega) (by omega)
  have hn : data.length ≠ 0 := fun h => hne (List.length_eq_zero_iff.mp h)
  rcases line_prefix q x line _ hq with ⟨m, hm⟩ | ⟨part, hpart, rfl⟩ | ⟨q', rfl, hq'⟩
  · refine arriving_size limit pre body line q m _ hline hm ?_ (hfits _ (by rw [hm]; simp))
    rw [List.length_append]
    omega
  · exact .size hline hpart (hfits _ (Nat.le_refl _) _ (Nat.le_refl _))
  · have hwhole := hfits _ (Nat.le_refl _) _ (Nat.le_refl _)
    rcases line_prefix q' x data rest hq'.symm with ⟨m, hm⟩ | ⟨part, hpart, rfl⟩ | ⟨q'', rfl, -⟩
    · rcases Nat.lt_or_ge q'.length data.length with hlt | hge
      · rw [← List.append_nil q']
        exact .data hline hn (.inl ⟨hlt, rfl⟩) hwhole
      · have hm' : m = [] := by
          have hlen' := congrArg List.length hm
          rw [List.length_append] at hlen'
          exact List.length_eq_zero_iff.mp (by omega)
        rw [hm', List.append_nil] at hm
        rw [← hm, ← List.append_nil data]
        exact .data hline hn (.inr ⟨rfl, .inl rfl⟩) hwhole
    · exact .data hline hn (.inr ⟨rfl, hpart⟩) hwhole
    · simp only [List.length_append, crlf_length] at hshort
      omega

end Arrive

theorem continuable_of_prefix (limit : UInt64) (e b : Bytes) (h : Encodes e b) (pre body q x : Bytes)
    (hrow : Row pre body) (hq : q ++ x = e) (hx : x ≠ []) (hlen : (pre ++ e).length ≤ maxSlice)
    (hlimit : body.length + b.length ≤ limit.toNat) : Continuable limit (pre ++ q) := by
  induction h generalizing pre body q with
  | @last line hline =>
    exact ⟨pre, body, q, rfl, hrow, by omega, arriving_last limit pre body line q x hline hq hx hlen⟩
  | @chunk line data rest b hline hne hrest ih =>
    rw [List.length_append] at hlimit
    rcases Nat.lt_or_ge q.length (line ++ crlf ++ (data ++ crlf)).length with hlt | hge
    · exact ⟨pre, body, q, rfl, hrow, by omega, arriving_chunk limit pre body line data rest q x hline hne
        (by rw [hq]; simp) hlt (encodes_length rest b hrest) hlen (by omega)⟩
    · obtain ⟨q', rfl, hq'⟩ := prefix_split q x _ rest hq hge
      rw [← List.append_assoc] at hlen ⊢
      exact ih _ (body ++ data) q' (row_snoc pre body line data hrow hline hne) hq'.symm hlen
        (by rw [List.length_append]; omega)

/-- **What it waits for can come** exactly when the input is whole chunks and then a part of what may
come next. -/
theorem needMore_viable_iff (profile : Profile) (limit : UInt64) (input : Bytes)
    (hlen : input.length ≤ maxSlice) (h : decodeChunked profile input limit = .ok .needMore) :
    Viable profile limit input ↔ Continuable limit input := by
  constructor
  · rintro ⟨s, b, c, hmax, hcomplete⟩
    have hfits : ∀ bytes : Bytes, bytes.length ≤ maxSlice → bytes.length < u64Bound := fun _ hle =>
      Nat.lt_of_le_of_lt hle (by decide)
    obtain ⟨e, rest, hsplit, he, hlimit, -⟩ :=
      decode_complete profile limit (input ++ s) (hfits _ hmax) b c hcomplete
    rcases Nat.lt_or_ge input.length e.length with hlt | hge
    · obtain ⟨x, rfl, -⟩ := prefix_split e rest input s hsplit.symm (Nat.le_of_lt hlt)
      have hx : x ≠ [] := by
        rintro rfl
        simp at hlt
      rw [hsplit, List.length_append] at hmax
      exact continuable_of_prefix limit _ b he [] [] input x .nil rfl hx (by simp at hmax ⊢; omega)
        (by simpa using hlimit)
    · obtain ⟨tail, rfl, -⟩ := prefix_split input s e rest hsplit hge
      rw [decode_encodes profile limit e b tail he (hfits _ hlen) hlimit] at h
      cases h
  · rintro ⟨pre, body, rest, rfl, hrow, hbody, harriving⟩
    exact viable_of_arriving profile limit pre body rest hrow hbody harriving

theorem needMore_viable_iff_partial : Viable .dev 8 (ascii "3\r\nab") := by
  have hline : IsSize (ascii "3") 3 :=
    ⟨by decide, by decide, List.all_eq_true.mp (by decide), by decide⟩
  have hfits : Fits 8 ([] ++ ascii "3").length ([] : Bytes).length 3 := by
    unfold Fits
    rw [if_neg (by decide)]
    exact ⟨by decide, by decide⟩
  refine (needMore_viable_iff .dev 8 _ (by decide) (by decide)).mpr
    ⟨[], [], ascii "3\r\nab", rfl, .nil, Nat.zero_le _, ?_⟩
  have harriving : Arriving 8 [] [] (ascii "3" ++ crlf ++ (ascii "ab" ++ [])) :=
    .data hline (by decide) (.inl ⟨by decide, rfl⟩) hfits
  exact harriving

theorem encodes_starts (e b : Bytes) (h : Encodes e b) : ∃ d t, e = d :: t ∧ isHexDigit d = true := by
  have hstarts : ∀ line n tail, IsSize line n → ∃ d t, line ++ tail = d :: t ∧ isHexDigit d = true := by
    intro line n tail hline
    obtain ⟨d, t, rfl⟩ := List.exists_cons_of_ne_nil hline.nonempty
    exact ⟨d, t ++ tail, rfl, hline.digits d List.mem_cons_self⟩
  cases h with
  | last hline =>
    rw [List.append_assoc]
    exact hstarts _ _ _ hline
  | chunk hline _ _ =>
    rw [List.append_assoc, List.append_assoc]
    exact hstarts _ _ _ hline

/-- It waits for the end of a size line that has no digit in it. -/
theorem junk_awaited : decodeChunked .dev (ascii "zz") 8 = .ok .needMore ∧ ¬ Viable .dev 8 (ascii "zz") := by
  refine ⟨by decide, ?_⟩
  rintro ⟨s, b, c, hmax, hcomplete⟩
  obtain ⟨e, rest, hsplit, he, -⟩ := decode_complete .dev 8 _ (Nat.lt_of_le_of_lt hmax (by decide)) b c hcomplete
  obtain ⟨d, t, rfl, hd⟩ := encodes_starts e b he
  obtain ⟨rfl, -⟩ := List.cons.inj hsplit
  revert hd
  decide

end Capcurl.NeedMore
