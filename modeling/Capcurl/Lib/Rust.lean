import Mathlib.Data.List.Basic

/-! # Rust: panics, 64-bit sums, slices, loops

A run that does not return a value ends in an error of the program, in a panic, or, in this
model only, with the fuel of a loop used up.
-/

namespace Capcurl.Lib

inductive Halt (ε : Type) where
  | err (e : ε)
  | panic
  | fuel
  deriving DecidableEq, Repr

/-- The build profile: `dev` panics where an addition overflows, `release` wraps around. -/
inductive Profile where
  | dev
  | release
  deriving DecidableEq, Repr

def u64Bound : Nat := UInt64.size

/-- `isize::MAX`, the most bytes that a slice can have. -/
def maxSlice : Nat := 9223372036854775807

/-- A `u64` or 64-bit `usize` addition. -/
def addU64 {ε : Type} (profile : Profile) (a b : Nat) : Except (Halt ε) Nat :=
  if a + b < u64Bound then .ok (a + b)
  else match profile with
    | .dev => .error .panic
    | .release => .ok ((a + b) % u64Bound)

/-- `&l[start..stop]` -/
def slice {ε α : Type} (l : List α) (start stop : Nat) : Except (Halt ε) (List α) :=
  if start ≤ stop ∧ stop ≤ l.length then .ok ((l.take stop).drop start) else .error .panic

/-- `l[i]` -/
def index {ε α : Type} (l : List α) (i : Nat) : Except (Halt ε) α :=
  match l[i]? with
  | some a => .ok a
  | none => .error .panic

/-- `u64::saturating_add` -/
def saturatingAdd (a b : Nat) : Nat := min (a + b) (u64Bound - 1)

/-- `u64::saturating_mul` -/
def saturatingMul (a b : Nat) : Nat := min (a * b) (u64Bound - 1)

section Facts

variable {ε α : Type}

theorem addU64_ok (profile : Profile) (a b : Nat) (h : a + b < u64Bound) :
    addU64 (ε := ε) profile a b = .ok (a + b) := by
  rw [addU64.eq_def, if_pos h]

theorem addU64_cases (profile : Profile) (a b c : Nat) (ha : a < u64Bound) (hb : b < u64Bound)
    (h : addU64 (ε := ε) profile a b = .ok c) :
    (a + b < u64Bound ∧ c = a + b) ∨ (u64Bound ≤ a + b ∧ c + u64Bound = a + b) := by
  unfold addU64 at h
  split at h
  · rename_i hlt
    exact .inl ⟨hlt, (Except.ok.inj h).symm⟩
  · rename_i hge
    cases profile with
    | dev => simp at h
    | release =>
      have hc := Except.ok.inj h
      refine .inr ⟨by omega, ?_⟩
      rw [← hc, Nat.mod_eq_sub_mod (by omega), Nat.mod_eq_of_lt (by omega)]
      omega

theorem slice_ok (l : List α) (start stop : Nat) (h : start ≤ stop) (hl : stop ≤ l.length) :
    slice (ε := ε) l start stop = .ok ((l.take stop).drop start) := by
  unfold slice
  rw [if_pos ⟨h, hl⟩]

theorem slice_eq_ok_iff (l r : List α) (start stop : Nat) :
    slice (ε := ε) l start stop = .ok r ↔
      start ≤ stop ∧ stop ≤ l.length ∧ r = (l.take stop).drop start := by
  unfold slice
  split
  · rename_i h
    simp only [Except.ok.injEq, h.1, h.2, true_and]
    exact eq_comm
  · rename_i h
    simp only [reduceCtorEq, false_iff]
    exact fun hr => h ⟨hr.1, hr.2.1⟩

theorem slice_from (l : List α) (start : Nat) (h : start ≤ l.length) :
    slice (ε := ε) l start l.length = .ok (l.drop start) := by
  rw [slice_ok _ _ _ h (Nat.le_refl _), List.take_length]

theorem slice_from_append (l s : List α) (start : Nat) (h : start ≤ l.length) :
    slice (ε := ε) (l ++ s) start (l ++ s).length = .ok (l.drop start ++ s) := by
  rw [slice_from _ _ (by rw [List.length_append]; omega), List.drop_append_of_le_length h]

theorem slice_behind (pre rest : List α) (start stop : Nat) :
    slice (ε := ε) (pre ++ rest) (pre.length + start) (pre.length + stop) = slice rest start stop := by
  unfold slice
  rw [List.take_length_add_append, List.drop_length_add_append, List.length_append]
  by_cases h : start ≤ stop ∧ stop ≤ rest.length
  · rw [if_pos h, if_pos (by omega)]
  · rw [if_neg h, if_neg (by omega)]

theorem slice_append (l s : List α) (start stop : Nat) (h : stop ≤ l.length) :
    slice (ε := ε) (l ++ s) start stop = slice l start stop := by
  unfold slice
  rw [List.take_append_of_le_length h]
  by_cases hs : start ≤ stop
  · rw [if_pos ⟨hs, by rw [List.length_append]; omega⟩, if_pos ⟨hs, h⟩]
  · rw [if_neg fun hh => hs hh.1, if_neg fun hh => hs hh.1]

end Facts

/-! ## `loop` -/

section Loop

variable {ε β σ : Type}

/-- `loop { turn }`: a turn returns (`inl`), or leaves the state of the next one (`inr`). -/
def loop (turn : σ → Except (Halt ε) (β ⊕ σ)) : Nat → σ → Except (Halt ε) β
  | 0, _ => .error .fuel
  | fuel + 1, s =>
    match turn s with
    | .error e => .error e
    | .ok (.inl b) => .ok b
    | .ok (.inr s') => loop turn fuel s'

/-- How a turn that ends the loop ends it. -/
def Ends (turn : σ → Except (Halt ε) (β ⊕ σ)) (s : σ) (r : Except (Halt ε) β) : Prop :=
  (∃ b, turn s = .ok (.inl b) ∧ r = .ok b) ∨ ∃ e, turn s = .error e ∧ r = .error e

theorem loop_ends (turn : σ → Except (Halt ε) (β ⊕ σ)) (Inv : σ → Prop) (μ : σ → Nat)
    (hstep : ∀ s s', Inv s → turn s = .ok (.inr s') → Inv s' ∧ μ s' < μ s) (fuel : Nat) (s : σ)
    (hinv : Inv s) (hμ : μ s < fuel) : ∃ s', Inv s' ∧ Ends turn s' (loop turn fuel s) := by
  induction fuel generalizing s with
  | zero => omega
  | succ fuel ih =>
    cases ht : turn s with
    | error e => exact ⟨s, hinv, .inr ⟨e, ht, by rw [loop, ht]⟩⟩
    | ok r =>
      cases r with
      | inl b => exact ⟨s, hinv, .inl ⟨b, ht, by rw [loop, ht]⟩⟩
      | inr s' =>
        obtain ⟨hinv', hlt⟩ := hstep s s' hinv ht
        have heq : loop turn (fuel + 1) s = loop turn fuel s' := by rw [loop, ht]
        rw [heq]
        exact ih s' hinv' (by omega)

theorem loop_turn (turn : σ → Except (Halt ε) (β ⊕ σ)) (fuel : Nat) (s s' : σ)
    (h : turn s = .ok (.inr s')) : loop turn (fuel + 1) s = loop turn fuel s' := by
  rw [loop, h]

theorem loop_return (turn : σ → Except (Halt ε) (β ⊕ σ)) (fuel : Nat) (s : σ) (b : β)
    (h : turn s = .ok (.inl b)) : loop turn (fuel + 1) s = .ok b := by
  unfold loop
  rw [h]

theorem loop_computes (turn : σ → Except (Halt ε) (β ⊕ σ)) (f : σ → Except (Halt ε) β) (μ : σ → Nat)
    (hturn : ∀ s, Ends turn s (f s) ∨ ∃ s', turn s = .ok (.inr s') ∧ f s' = f s ∧ μ s' < μ s)
    (fuel : Nat) (s : σ) (hμ : μ s < fuel) : loop turn fuel s = f s := by
  induction fuel generalizing s with
  | zero => omega
  | succ fuel ih =>
    rcases hturn s with (⟨b, hb, hf⟩ | ⟨e, he, hf⟩) | ⟨s', hs', hf, hlt⟩
    · rw [loop_return turn fuel s b hb, hf]
    · rw [loop, he, hf]
    · rw [loop_turn turn fuel s s' hs', ih s' (by omega), hf]

theorem loop_agrees (turn turn' : σ → Except (Halt ε) (β ⊕ σ)) (Inv : σ → Prop) (μ : σ → Nat) (b : β)
    (hstep : ∀ s s', Inv s → turn s = .ok (.inr s') → Inv s' ∧ μ s' < μ s)
    (hturn : ∀ s, Inv s → turn s = .ok (.inl b) ∨ turn' s = turn s) (fuel fuel' : Nat) (s : σ)
    (hinv : Inv s) (hμ : μ s < fuel) (hle : fuel ≤ fuel') :
    loop turn fuel s = .ok b ∨ loop turn' fuel' s = loop turn fuel s := by
  induction fuel generalizing fuel' s with
  | zero => omega
  | succ fuel ih =>
    obtain ⟨fuel', rfl⟩ : ∃ n, fuel' = n + 1 := ⟨fuel' - 1, by omega⟩
    rcases hturn s hinv with h | h
    · exact .inl (by rw [loop, h])
    · cases ht : turn s with
      | error e => exact .inr (by rw [loop, loop, h, ht])
      | ok r =>
        cases r with
        | inl b => exact .inr (by rw [loop, loop, h, ht])
        | inr s' =>
          obtain ⟨hinv', hlt⟩ := hstep s s' hinv ht
          rw [loop_turn turn fuel s s' ht, loop_turn turn' fuel' s s' (h.trans ht)]
          exact ih fuel' s' hinv' (by omega) (by omega)

end Loop

end Capcurl.Lib
