import Capcurl.Lib.Bytes
import Capcurl.Lib.Search

/-! # Splitting: iterators, `splitn`, `split_once`, and lines that end in CRLF -/

namespace Capcurl.Lib

/-! ## Iterators -/

/-- `std::iter::from_fn(next).collect()`, for at most `fuel` items. -/
def fromFn {σ β : Type} (next : σ → Option (β × σ)) : Nat → σ → List β
  | 0, _ => []
  | fuel + 1, s =>
    match next s with
    | none => []
    | some (b, s') => b :: fromFn next fuel s'

theorem fromFn_none {σ β : Type} (next : σ → Option (β × σ)) (fuel : Nat) (s : σ)
    (h : next s = none) : fromFn next fuel s = [] := by
  cases fuel with
  | zero => rfl
  | succ fuel => rw [fromFn, h]

theorem fromFn_fuel {σ β : Type} (next : σ → Option (β × σ)) (μ : σ → Nat)
    (hμ : ∀ s b s', next s = some (b, s') → μ s' < μ s) (fuel : Nat) (s : σ) (h : μ s ≤ fuel) :
    fromFn next fuel s = fromFn next (μ s) s := by
  induction fuel using Nat.strong_induction_on generalizing s with
  | _ fuel ih =>
    cases hn : next s with
    | none => rw [fromFn_none next _ s hn, fromFn_none next _ s hn]
    | some p =>
      obtain ⟨b, s'⟩ := p
      have hlt := hμ s b s' hn
      obtain ⟨m, hm⟩ : ∃ m, μ s = m + 1 := ⟨μ s - 1, by omega⟩
      obtain ⟨k, rfl⟩ : ∃ k, fuel = k + 1 := ⟨fuel - 1, by omega⟩
      rw [hm, fromFn, fromFn, hn]
      simp only [List.cons.injEq, true_and]
      rw [ih k (by omega) s' (by omega)]
      rcases Nat.lt_or_ge m (k + 1) with hk | hk
      · rw [ih m (by omega) s' (by omega)]
      · omega

theorem fromFn_some {σ β : Type} (next : σ → Option (β × σ)) (μ : σ → Nat)
    (hμ : ∀ s b s', next s = some (b, s') → μ s' < μ s) (s s' : σ) (b : β)
    (h : next s = some (b, s')) : fromFn next (μ s) s = b :: fromFn next (μ s') s' := by
  have hlt := hμ s b s' h
  obtain ⟨m, hm⟩ : ∃ m, μ s = m + 1 := ⟨μ s - 1, by omega⟩
  rw [hm, fromFn, h]
  simp only [List.cons.injEq, true_and]
  exact fromFn_fuel next μ hμ m s' (by omega)

/-! ## `split_once` and `splitn` -/

/-- `split_once(sep)`: around the first `sep`. -/
def splitOnce (sep : Byte) : Bytes → Option (Bytes × Bytes)
  | [] => none
  | b :: t => if b = sep then some ([], t) else (splitOnce sep t).map fun p => (b :: p.1, p.2)

theorem splitOnce_append (sep : Byte) (a rest : Bytes) (h : sep ∉ a) :
    splitOnce sep (a ++ sep :: rest) = some (a, rest) := by
  induction a with
  | nil => simp [splitOnce]
  | cons b a ih =>
    simp only [List.mem_cons, not_or] at h
    rw [List.cons_append, splitOnce, if_neg (fun hb => h.1 hb.symm), ih h.2]
    rfl

theorem splitOnce_eq_some_iff (sep : Byte) (t a rest : Bytes) :
    splitOnce sep t = some (a, rest) ↔ t = a ++ sep :: rest ∧ sep ∉ a := by
  constructor
  · intro h
    induction t generalizing a with
    | nil => simp [splitOnce] at h
    | cons b t ih =>
      unfold splitOnce at h
      split at h
      · rename_i hb
        simp only [Option.some.injEq, Prod.mk.injEq] at h
        obtain ⟨rfl, rfl⟩ := h
        simp [hb]
      · rename_i hb
        simp only [Option.map_eq_some_iff, Prod.mk.injEq] at h
        obtain ⟨⟨c, r⟩, hc, rfl, rfl⟩ := h
        obtain ⟨rfl, hmem⟩ := ih c hc
        refine ⟨rfl, ?_⟩
        rintro (_ | ⟨_, hx⟩)
        · exact hb rfl
        · exact hmem hx
  · rintro ⟨rfl, h⟩
    exact splitOnce_append sep a rest h

theorem splitOnce_eq_none_iff (sep : Byte) (t : Bytes) : splitOnce sep t = none ↔ sep ∉ t := by
  induction t with
  | nil => simp [splitOnce]
  | cons b t ih =>
    unfold splitOnce
    split
    · rename_i hb
      simp [hb]
    · rename_i hb
      simp only [Option.map_eq_none_iff, ih, List.mem_cons, not_or]
      exact ⟨fun h => ⟨fun hs => hb hs.symm, h⟩, fun h => h.2⟩

/-- `splitn(n, sep)`: at most `n` pieces, the last one unsplit. -/
def splitn (sep : Byte) : Nat → Bytes → List Bytes
  | 0, _ => []
  | 1, t => [t]
  | n + 2, t =>
    match splitOnce sep t with
    | none => [t]
    | some (a, rest) => a :: splitn sep (n + 1) rest

theorem splitn_three (m t v : Bytes) (hm : ch ' ' ∉ m) (ht : ch ' ' ∉ t) :
    splitn (ch ' ') 3 (m ++ ch ' ' :: (t ++ ch ' ' :: v)) = [m, t, v] := by
  unfold splitn
  rw [splitOnce_append _ _ _ hm]
  simp only [splitn, splitOnce_append _ _ _ ht]

/-! ## Lines -/

def crlf : Bytes := [13, 10]

@[simp]
theorem crlf_length : crlf.length = 2 := rfl

theorem crlf_ne_nil : crlf ≠ [] := by decide

theorem crlf_ascii : Ascii crlf := by
  intro b hb
  simp only [crlf, List.mem_cons, List.not_mem_nil, or_false] at hb
  rcases hb with rfl | rfl <;> decide

theorem crlf_prefix_straddle (line rest : Bytes) (j : Nat) (hj : j < line.length)
    (h : crlf <+: (line ++ crlf ++ rest).drop j) : crlf <+: line.drop j := by
  rcases Nat.lt_or_ge (j + 1) line.length with hlt | hge
  · rw [List.append_assoc, prefix_append_of_fits crlf line (crlf ++ rest) j (by simp; omega)] at h
    exact h
  · exfalso
    have hlast : line.drop j = [line.get ⟨j, hj⟩] := by
      rw [List.drop_eq_getElem_cons hj, List.drop_eq_nil_of_le (by omega)]
      rfl
    rw [List.append_assoc, List.drop_append_of_le_length (by omega), hlast] at h
    simp [crlf] at h

theorem findSeq_crlf_line (line rest : Bytes) (h : findSeq crlf line = none) :
    findSeq crlf (line ++ crlf ++ rest) = some line.length := by
  rw [findSeq_eq_none_iff _ _ crlf_ne_nil] at h
  rw [findSeq_eq_some_iff _ _ _ crlf_ne_nil]
  constructor
  · rw [List.append_assoc, List.drop_left]
    exact List.prefix_append _ _
  · intro j hj hp
    exact h j (crlf_prefix_straddle line rest j hj hp)

theorem findSeq_skip (pat line rest : Bytes) (hpat : pat.head? = some 13) (h : (13 : Byte) ∉ line) :
    findSeq pat (line ++ rest) = (findSeq pat rest).map (· + line.length) := by
  induction line with
  | nil => simp
  | cons b line ih =>
    simp only [List.mem_cons, not_or] at h
    rw [List.cons_append, findSeq_cons_skip, ih h.2, Option.map_map]
    · rfl
    · intro hp
      cases pat with
      | nil => simp at hpat
      | cons c pat =>
        rw [List.cons_prefix_cons] at hp
        simp only [List.head?_cons, Option.some.injEq] at hpat
        exact h.1 (hpat.symm.trans hp.1)

theorem findSeq_crlf_of_no_cr (line : Bytes) (h : (13 : Byte) ∉ line) :
    findSeq crlf line = none := by
  have := findSeq_skip crlf line [] rfl h
  simpa using this

/-! ## `str::split` on CRLF -/

/-- What is left to split, or nothing once the last piece is out. -/
def splitCrlfStrNext : Option Bytes → Option (Bytes × Option Bytes)
  | none => none
  | some rest =>
    match findSeq crlf rest with
    | some i => some (rest.take i, some (rest.drop (i + 2)))
    | none => some (rest, none)

/-- `split("\r\n")`: the pieces between the CRLFs, an empty last one included. -/
def splitOnCrlf (t : Text) : List Text := fromFn splitCrlfStrNext (t.length + 1) (some t)

def splitMeasure : Option Bytes → Nat
  | none => 0
  | some rest => rest.length + 1

theorem splitCrlfStrNext_lt (s s' : Option Bytes) (b : Bytes)
    (h : splitCrlfStrNext s = some (b, s')) : splitMeasure s' < splitMeasure s := by
  cases s with
  | none => simp [splitCrlfStrNext] at h
  | some rest =>
    rw [splitCrlfStrNext] at h
    split at h
    · rename_i i hi
      have := findSeq_le crlf rest i crlf_ne_nil hi
      simp only [Option.some.injEq, Prod.mk.injEq] at h
      obtain ⟨-, rfl⟩ := h
      simp [splitMeasure] at this ⊢
      omega
    · simp only [Option.some.injEq, Prod.mk.injEq] at h
      obtain ⟨-, rfl⟩ := h
      simp [splitMeasure]

theorem splitOnCrlf_line (line rest : Bytes) (h : findSeq crlf line = none) :
    splitOnCrlf (line ++ crlf ++ rest) = line :: splitOnCrlf rest := by
  have hfind := findSeq_crlf_line line rest h
  refine fromFn_some splitCrlfStrNext splitMeasure (fun s b s' => splitCrlfStrNext_lt s s' b)
    (some (line ++ crlf ++ rest)) (some rest) line ?_
  simp only [splitCrlfStrNext, hfind]
  have htake : (line ++ crlf ++ rest).take line.length = line := by simp
  have hdrop : (line ++ crlf ++ rest).drop (line.length + 2) = rest := by
    rw [show line.length + 2 = (line ++ crlf).length by simp, List.drop_left]
  rw [htake, hdrop]

/-! ## Splitting what was joined -/

theorem splitOnP_intercalate (p : Byte → Bool) (sep : Byte) (hsep : p sep = true)
    (parts : List Bytes) (hne : parts ≠ []) (h : ∀ l ∈ parts, ∀ b ∈ l, p b = false) :
    ([sep].intercalate parts).splitOnP p = parts := by
  induction parts with
  | nil => exact absurd rfl hne
  | cons part parts ih =>
    simp only [List.mem_cons, forall_eq_or_imp] at h
    match parts with
    | [] => simpa using List.splitOnP_eq_singleton h.1
    | next :: parts =>
      rw [List.intercalate_cons_cons, List.append_assoc, List.singleton_append,
        List.splitOnP_append_cons_of_forall_mem h.1 sep hsep, ih (by simp) h.2]

theorem splitOnP_congr (p q : Byte → Bool) (t : Bytes) (h : ∀ b ∈ t, p b = q b) :
    t.splitOnP p = t.splitOnP q := by
  induction t with
  | nil => simp
  | cons b t ih =>
    simp only [List.mem_cons, forall_eq_or_imp] at h
    rw [List.splitOnP_cons_eq_if_modifyHead, List.splitOnP_cons_eq_if_modifyHead, ih h.2, h.1]

theorem splitOnP_pure (p : Byte → Bool) (t : Bytes) : ∀ l ∈ t.splitOnP p, ∀ b ∈ l, p b = false := by
  induction t with
  | nil => simp
  | cons b t ih =>
    rw [List.splitOnP_cons_eq_if_modifyHead]
    split
    · simpa using ih
    · rename_i hb
      obtain ⟨first, rest, hsplit⟩ := List.exists_cons_of_ne_nil (List.splitOnP_ne_nil p t)
      rw [hsplit] at ih ⊢
      simp only [List.modifyHead_cons, List.mem_cons, forall_eq_or_imp] at ih ⊢
      exact ⟨⟨by simpa using hb, ih.1⟩, ih.2⟩

theorem mem_of_splitOnP {α : Type} (p : α → Bool) (l w : List α) (a : α) (hw : w ∈ l.splitOnP p)
    (ha : a ∈ w) : a ∈ l := by
  induction l generalizing w with
  | nil =>
    rw [List.splitOnP_nil, List.mem_singleton] at hw
    rwa [hw] at ha
  | cons b l ih =>
    rw [List.splitOnP_cons_eq_if_modifyHead] at hw
    split at hw
    · rcases List.mem_cons.mp hw with rfl | hw
      · cases ha
      · exact List.mem_cons_of_mem b (ih w hw ha)
    · obtain ⟨first, rest, hsplit⟩ := List.exists_cons_of_ne_nil (List.splitOnP_ne_nil p l)
      rw [hsplit, List.modifyHead_cons] at hw
      rw [hsplit] at ih
      rcases List.mem_cons.mp hw with rfl | hw
      · rcases List.mem_cons.mp ha with rfl | ha
        · exact List.mem_cons_self
        · exact List.mem_cons_of_mem b (ih first List.mem_cons_self ha)
      · exact List.mem_cons_of_mem b (ih w (List.mem_cons_of_mem first hw) ha)

theorem intercalate_append (sep : Byte) (a b : List Bytes) (hb : b ≠ []) :
    [sep].intercalate (a ++ b) = a.flatMap (· ++ [sep]) ++ [sep].intercalate b := by
  induction a with
  | nil => simp
  | cons part a ih =>
    rw [List.cons_append, List.intercalate_cons_of_ne_nil (by simp [hb]), ih]
    simp

theorem intercalate_cons_flatMap (sep : Byte) (part : Bytes) (parts : List Bytes) :
    [sep].intercalate (part :: parts) = part ++ parts.flatMap (sep :: ·) := by
  induction parts generalizing part with
  | nil => simp
  | cons next parts ih =>
    rw [List.intercalate_cons_cons, ih, List.flatMap_cons, List.append_assoc, List.singleton_append,
      List.cons_append]

theorem mem_intercalate (sep c : Byte) (parts : List Bytes) (h : c ∈ [sep].intercalate parts) :
    c = sep ∨ ∃ l ∈ parts, c ∈ l := by
  induction parts with
  | nil => simp at h
  | cons part parts ih =>
    match parts with
    | [] => exact .inr ⟨part, by simp, by simpa using h⟩
    | next :: parts =>
      rw [List.intercalate_cons_cons, List.append_assoc, List.singleton_append] at h
      rcases List.mem_append.mp h with h | h
      · exact .inr ⟨part, by simp, h⟩
      · rcases List.mem_cons.mp h with h | h
        · exact .inl h
        · rcases ih h with h | ⟨l, hl, hc⟩
          · exact .inl h
          · exact .inr ⟨l, List.mem_cons_of_mem _ hl, hc⟩

theorem mem_intercalate_of_mem (sep c : Byte) (parts : List Bytes) (l : Bytes) (hl : l ∈ parts)
    (hc : c ∈ l) : c ∈ [sep].intercalate parts := by
  obtain ⟨a, b, rfl⟩ := List.append_of_mem hl
  rw [intercalate_append _ _ _ (by simp)]
  cases b with
  | nil => simp [hc]
  | cons next b =>
    rw [List.intercalate_cons_cons]
    simp [hc]

theorem subset_of_mem_splitOn (sep : Byte) (t e : Bytes) (h : e ∈ t.splitOn sep) : e ⊆ t := by
  intro b hb
  exact mem_of_splitOnP _ t e b h hb

/-! ## Lines with their terminators -/

def terminated (lines : List Bytes) : Bytes := lines.flatMap (· ++ crlf)

@[simp]
theorem terminated_nil : terminated [] = [] := rfl

@[simp]
theorem terminated_cons (line : Bytes) (lines : List Bytes) :
    terminated (line :: lines) = line ++ crlf ++ terminated lines := rfl

theorem splitOnCrlf_terminated (lines : List Bytes) (rest : Bytes)
    (h : ∀ line ∈ lines, findSeq crlf line = none) :
    splitOnCrlf (terminated lines ++ rest) = lines ++ splitOnCrlf rest := by
  induction lines with
  | nil => simp
  | cons line lines ih =>
    rw [terminated_cons, List.append_assoc, splitOnCrlf_line _ _ (h line (by simp)),
      ih (fun l hl => h l (List.mem_cons_of_mem _ hl))]
    rfl

/-! ## The blank line -/

theorem crlf2_ne_nil : crlf ++ crlf ≠ [] := by decide

theorem findSeq_blank_line (line : Bytes) (lines : List Bytes) (rest : Bytes)
    (hcr : ∀ l ∈ line :: lines, (13 : Byte) ∉ l) (hne : ∀ l ∈ lines, l ≠ []) :
    (findSeq (crlf ++ crlf) (terminated (line :: lines) ++ crlf ++ rest)).map (· + 4) =
      some (terminated (line :: lines) ++ crlf).length := by
  induction lines generalizing line with
  | nil =>
    have htext : terminated [line] ++ crlf ++ rest = line ++ (crlf ++ crlf ++ rest) := by simp
    have hhere : findSeq (crlf ++ crlf) (crlf ++ crlf ++ rest) = some 0 :=
      findSeq_cons_here _ _ _ (List.prefix_append _ _)
    rw [htext, findSeq_skip _ line _ rfl (hcr line (by simp)), hhere]
    simp [crlf]
  | cons next lines ih =>
    have ih := ih next (fun l hl => hcr l (List.mem_cons_of_mem _ hl)) fun l hl =>
      hne l (List.mem_cons_of_mem _ hl)
    obtain ⟨b, next', rfl⟩ := List.exists_cons_of_ne_nil (hne next (by simp))
    have hb : b ≠ 13 := fun he => hcr (b :: next') (by simp) (by simp [he])
    have htext : terminated (line :: (b :: next') :: lines) ++ crlf ++ rest =
        line ++ (13 :: 10 :: (terminated ((b :: next') :: lines) ++ crlf ++ rest)) := by
      simp [crlf]
    have hlen : (terminated (line :: (b :: next') :: lines) ++ crlf).length =
        line.length + 2 + (terminated ((b :: next') :: lines) ++ crlf).length := by
      simp
      omega
    -- Neither the CR after the first line nor its LF starts two line ends in a row.
    have hcrlf : findSeq (crlf ++ crlf) (13 :: 10 :: (terminated ((b :: next') :: lines) ++ crlf ++ rest)) =
        (findSeq (crlf ++ crlf) (terminated ((b :: next') :: lines) ++ crlf ++ rest)).map (· + 2) := by
      rw [findSeq_cons_skip, findSeq_cons_skip, Option.map_map]
      · rfl
      · simp [crlf]
      · simp [crlf, hb.symm]
    obtain ⟨i, hi, hi4⟩ := Option.map_eq_some_iff.mp ih
    rw [htext, findSeq_skip _ line _ rfl (hcr line (by simp)), hcrlf, hi, hlen, ← hi4]
    simp only [Option.map_some, Option.some.injEq]
    omega

theorem crlf_prefix_of_crlf2 (t : Bytes) (h : crlf ++ crlf <+: t) : crlf <+: t :=
  (List.prefix_append _ _).trans h

theorem crlf_not_adjacent (t : Bytes) (j : Nat) (h : crlf <+: t.drop j)
    (h' : crlf <+: t.drop (j + 1)) : False := by
  obtain ⟨u, hu⟩ := h
  obtain ⟨v, hv⟩ := h'
  rw [← List.drop_drop, ← hu] at hv
  simp [crlf] at hv

theorem lines_of_blank_line (buf : Bytes) (i : Nat) (h : findSeq (crlf ++ crlf) buf = some i)
    (hlen : i + 4 = buf.length) :
    ∃ lines, lines ≠ [] ∧ buf = terminated lines ++ crlf ∧
      (∀ l ∈ lines, findSeq crlf l = none) ∧ ∀ l ∈ lines.tail, l ≠ [] := by
  induction hn : buf.length using Nat.strong_induction_on generalizing buf i with
  | _ n ih =>
    have hi := (findSeq_eq_some_iff _ _ _ crlf2_ne_nil).mp h
    have hici : crlf <+: buf.drop i := crlf_prefix_of_crlf2 _ hi.1
    obtain ⟨j, hj⟩ : ∃ j, findSeq crlf buf = some j := by
      cases hf : findSeq crlf buf with
      | none => exact absurd hici ((findSeq_eq_none_iff _ _ crlf_ne_nil).mp hf i)
      | some j => exact ⟨j, rfl⟩
    have hjs := (findSeq_eq_some_iff _ _ _ crlf_ne_nil).mp hj
    have hji : j ≤ i := by
      by_contra hlt
      exact hjs.2 i (by omega) hici
    have hline : findSeq crlf (buf.take j) = none := by
      rw [findSeq_take crlf buf j j crlf_ne_nil hj, if_neg (by simp)]
    have hsplit : buf = buf.take j ++ crlf ++ buf.drop (j + 2) := findSeq_split crlf buf j crlf_ne_nil hj
    rcases Nat.lt_or_ge j i with hlt | hge
    · -- The blank line is further on, past the next line.
      have hne : i ≠ j + 1 := by
        rintro rfl
        exact crlf_not_adjacent buf j hjs.1 hici
      have hrest : findSeq (crlf ++ crlf) (buf.drop (j + 2)) = some (i - (j + 2)) := by
        rw [findSeq_eq_some_iff _ _ _ crlf2_ne_nil, List.drop_drop]
        refine ⟨by rw [show j + 2 + (i - (j + 2)) = i by omega]; exact hi.1, ?_⟩
        intro k hk hp
        rw [List.drop_drop] at hp
        exact hi.2 (j + 2 + k) (by omega) hp
      have hrlen : (buf.drop (j + 2)).length = buf.length - (j + 2) := List.length_drop
      obtain ⟨lines, -, hbuf, hnone, htail⟩ :=
        ih (buf.drop (j + 2)).length (by omega) (buf.drop (j + 2)) _ hrest (by omega) rfl
      refine ⟨buf.take j :: lines, by simp, ?_, ?_, ?_⟩
      · rw [terminated_cons, List.append_assoc, ← hbuf, ← hsplit]
      · intro l hl
        rcases List.mem_cons.mp hl with rfl | hl
        · exact hline
        · exact hnone l hl
      · cases lines with
        | nil => simp
        | cons first more =>
          intro l hl
          rcases List.mem_cons.mp hl with rfl | hl
          · -- A blank line right here would be the first one.
            rintro rfl
            apply hi.2 j hlt
            rw [hsplit, hbuf, List.append_assoc, List.drop_append_of_le_length (by simp; omega),
              List.drop_eq_nil_of_le (by simp)]
            exact ⟨terminated more ++ crlf, by simp⟩
          · exact htail l hl
    · -- The blank line is right after this line.
      obtain rfl : j = i := by omega
      refine ⟨[buf.take j], by simp, ?_, by simpa using hline, by simp⟩
      have hend : buf.drop (j + 2) = crlf := by
        obtain ⟨t, ht⟩ := hi.1
        have htl := congrArg List.length ht
        simp only [List.length_append, crlf_length, List.length_drop] at htl
        obtain rfl : t = [] := List.eq_nil_of_length_eq_zero (by omega)
        rw [← List.drop_drop, ← ht]
        rfl
      rw [terminated_cons, terminated_nil, List.append_nil]
      conv_lhs => rw [hsplit, hend]

end Capcurl.Lib
