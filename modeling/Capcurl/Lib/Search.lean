import Mathlib.Data.List.Basic
import Mathlib.Data.List.Infix

/-! # The first occurrence of a pattern in a list -/

namespace Capcurl.Lib

variable {α : Type}

theorem prefix_split (q x a t : List α) (h : q ++ x = a ++ t) (hle : a.length ≤ q.length) :
    ∃ q', q = a ++ q' ∧ t = q' ++ x := by
  obtain ⟨q', rfl⟩ := List.prefix_of_prefix_length_le (List.prefix_append a t)
    (h ▸ List.prefix_append q x) hle
  rw [List.append_assoc, List.append_cancel_left_eq] at h
  exact ⟨q', rfl, h.symm⟩

theorem prefix_append_of_fits (pat l s : List α) (j : Nat) (h : j + pat.length ≤ l.length) :
    pat <+: (l ++ s).drop j ↔ pat <+: l.drop j := by
  rw [List.drop_append_of_le_length (by omega)]
  constructor
  · intro hp
    exact List.prefix_of_prefix_length_le hp (List.prefix_append _ s) (by simp; omega)
  · intro hp
    exact hp.trans (List.prefix_append _ s)

variable [DecidableEq α]

/-- `windows(pat.len()).position(|w| w == pat)`, for a pattern that is not empty. -/
def findSeq (pat : List α) : List α → Option Nat
  | [] => none
  | a :: l => if pat.isPrefixOf (a :: l) then some 0 else (findSeq pat l).map (· + 1)

@[simp]
theorem findSeq_nil (pat : List α) : findSeq pat [] = none := rfl

theorem findSeq_cons_here (pat l : List α) (a : α) (h : pat <+: a :: l) :
    findSeq pat (a :: l) = some 0 := by
  unfold findSeq
  rw [if_pos (List.isPrefixOf_iff_prefix.mpr h)]

theorem findSeq_cons_skip (pat l : List α) (a : α) (h : ¬ pat <+: a :: l) :
    findSeq pat (a :: l) = (findSeq pat l).map (· + 1) := by
  rw [findSeq, if_neg (by rwa [List.isPrefixOf_iff_prefix])]

theorem findSeq_eq_some_iff (pat l : List α) (i : Nat) (hpat : pat ≠ []) :
    findSeq pat l = some i ↔ pat <+: l.drop i ∧ ∀ j < i, ¬ pat <+: l.drop j := by
  induction l generalizing i with
  | nil => simp [hpat]
  | cons a l ih =>
    by_cases h : pat <+: a :: l
    · rw [findSeq_cons_here pat l a h]
      constructor
      · rintro ⟨⟩
        exact ⟨h, by simp⟩
      · rintro ⟨-, hmin⟩
        rcases Nat.eq_zero_or_pos i with rfl | hi
        · rfl
        · exact absurd h (hmin 0 hi)
    · rw [findSeq_cons_skip pat l a h]
      rcases i with _ | i
      · simp [h]
      · simp only [Option.map_eq_some_iff, Nat.add_right_cancel_iff, exists_eq_right, ih,
          List.drop_succ_cons]
        constructor
        · rintro ⟨hi, hmin⟩
          refine ⟨hi, ?_⟩
          rintro (_ | j) hj
          · exact h
          · exact hmin j (by omega)
        · rintro ⟨hi, hmin⟩
          exact ⟨hi, fun j hj => hmin (j + 1) (by omega)⟩

theorem findSeq_eq_none_iff (pat l : List α) (hpat : pat ≠ []) :
    findSeq pat l = none ↔ ∀ j, ¬ pat <+: l.drop j := by
  induction l with
  | nil => simp [hpat]
  | cons a l ih =>
    by_cases h : pat <+: a :: l
    · rw [findSeq_cons_here pat l a h]
      simp only [reduceCtorEq, false_iff, not_forall, not_not]
      exact ⟨0, h⟩
    · rw [findSeq_cons_skip pat l a h, Option.map_eq_none_iff, ih]
      constructor
      · rintro hn (_ | j)
        · exact h
        · exact hn j
      · intro hn j
        exact hn (j + 1)

theorem findSeq_le (pat l : List α) (i : Nat) (hpat : pat ≠ []) (h : findSeq pat l = some i) :
    i + pat.length ≤ l.length := by
  have hp := ((findSeq_eq_some_iff pat l i hpat).mp h).1.length_le
  have : 0 < pat.length := List.length_pos_of_ne_nil hpat
  rw [List.length_drop] at hp
  omega

theorem findSeq_append (pat l s : List α) (i : Nat) (hpat : pat ≠ []) (h : findSeq pat l = some i) :
    findSeq pat (l ++ s) = some i := by
  have hle := findSeq_le pat l i hpat h
  rw [findSeq_eq_some_iff _ _ _ hpat] at h ⊢
  refine ⟨(prefix_append_of_fits pat l s i hle).mpr h.1, ?_⟩
  intro j hj hp
  exact h.2 j hj ((prefix_append_of_fits pat l s j (by omega)).mp hp)

theorem findSeq_of_append (pat l s : List α) (i : Nat) (hpat : pat ≠ [])
    (h : findSeq pat (l ++ s) = some i) (hle : i + pat.length ≤ l.length) :
    findSeq pat l = some i := by
  rw [findSeq_eq_some_iff _ _ _ hpat] at h ⊢
  refine ⟨(prefix_append_of_fits pat l s i hle).mp h.1, ?_⟩
  intro j hj hp
  exact h.2 j hj ((prefix_append_of_fits pat l s j (by omega)).mpr hp)

theorem findSeq_take (pat l : List α) (i n : Nat) (hpat : pat ≠ []) (h : findSeq pat l = some i) :
    findSeq pat (l.take n) = if i + pat.length ≤ n then some i else none := by
  have hl : l.take n ++ l.drop n = l := List.take_append_drop n l
  have hle := findSeq_le pat l i hpat h
  split
  · rename_i hn
    apply findSeq_of_append pat (l.take n) (l.drop n) i hpat (by rw [hl]; exact h)
    rw [List.length_take]
    omega
  · rename_i hn
    cases ht : findSeq pat (l.take n) with
    | none => rfl
    | some j =>
      have hj := findSeq_append pat _ (l.drop n) j hpat ht
      have := findSeq_le pat _ j hpat ht
      rw [hl, h, Option.some.injEq] at hj
      rw [List.length_take] at this
      omega

theorem findSeq_split (pat l : List α) (i : Nat) (hpat : pat ≠ []) (h : findSeq pat l = some i) :
    l = l.take i ++ pat ++ l.drop (i + pat.length) := by
  obtain ⟨⟨t, ht⟩, -⟩ := (findSeq_eq_some_iff pat l i hpat).mp h
  have hd : l.drop (i + pat.length) = t := by
    rw [← List.drop_drop, ← ht, List.drop_left]
  rw [hd, List.append_assoc, ht, List.take_append_drop]

end Capcurl.Lib
