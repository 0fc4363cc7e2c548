import Mathlib.Data.List.Basic
import Mathlib.Data.Nat.Init

/-! # Read loops

A loop that looks at a growing buffer and reads more of a stream until it can decide. The stream
arrives in reads that the loop does not choose.
-/

namespace Capcurl.Lib

variable {α β : Type}

/-! ## Segmentations -/

/-- `reads` deliver the stream `s`: none is empty, and none is longer than the buffer it fills. -/
structure Segmented (max : Nat) (s : List α) (reads : List (List α)) : Prop where
  flatten : reads.flatten = s
  nonempty : ∀ r ∈ reads, r ≠ []
  bounded : ∀ r ∈ reads, r.length ≤ max

theorem segmented_nil (max : Nat) : Segmented max ([] : List α) [] :=
  ⟨rfl, by simp, by simp⟩

theorem segmented_append (max : Nat) (s t : List α) (xs ys : List (List α))
    (hx : Segmented max s xs) (hy : Segmented max t ys) : Segmented max (s ++ t) (xs ++ ys) := by
  refine ⟨by rw [List.flatten_append, hx.flatten, hy.flatten], ?_, ?_⟩
  · intro r hr
    rcases List.mem_append.mp hr with hr | hr
    · exact hx.nonempty r hr
    · exact hy.nonempty r hr
  · intro r hr
    rcases List.mem_append.mp hr with hr | hr
    · exact hx.bounded r hr
    · exact hy.bounded r hr

theorem segmented_singleton (max : Nat) (s : List α) (hne : s ≠ []) (hlen : s.length ≤ max) :
    Segmented max s [s] :=
  ⟨by simp, by simpa using hne, by simpa using hlen⟩

theorem exists_segmented (max : Nat) (hmax : 0 < max) (s : List α) :
    ∃ reads, Segmented max s reads := by
  induction hn : s.length using Nat.strong_induction_on generalizing s with
  | _ n ih =>
    by_cases hs : s = []
    · subst hs
      exact ⟨[], segmented_nil max⟩
    · have hpos := List.length_pos_of_ne_nil hs
      obtain ⟨reads, h⟩ := ih (s.drop max).length (by rw [List.length_drop]; omega) (s.drop max) rfl
      have hfirst : Segmented max (s.take max) [s.take max] := by
        apply segmented_singleton
        · intro he
          have := congrArg List.length he
          rw [List.length_take, List.length_nil] at this
          omega
        · rw [List.length_take]
          omega
      exact ⟨_, by simpa using segmented_append max _ _ _ _ hfirst h⟩

/-! ## The loop -/

/-- How a read loop ends: with a decision, or with the stream run out. -/
inductive Fed (α β : Type) where
  | stopped (b : β) (buf : List α) (unread : List (List α))
  | starved (buf : List α)

/-- Check the buffer; if that decides nothing, read into it and start over. A read of no bytes is
the end of the stream. -/
def feed (check : List α → Option β) (buf : List α) : List (List α) → Fed α β
  | [] =>
    match check buf with
    | some b => .stopped b buf []
    | none => .starved buf
  | r :: rest =>
    match check buf with
    | some b => .stopped b buf (r :: rest)
    | none => if r.isEmpty then .starved buf else feed check (buf ++ r) rest

theorem feed_stop (check : List α → Option β) (buf : List α) (reads : List (List α)) (b : β)
    (h : check buf = some b) : feed check buf reads = .stopped b buf reads := by
  cases reads <;> simp [feed, h]

theorem feed_read (check : List α → Option β) (buf r : List α) (rest : List (List α))
    (h : check buf = none) (hr : r ≠ []) :
    feed check buf (r :: rest) = feed check (buf ++ r) rest := by
  rw [feed, h]
  simp [hr]

theorem feed_cases (check : List α → Option β) (buf : List α) (reads : List (List α))
    (hne : ∀ r ∈ reads, r ≠ []) :
    (∃ b seen unread, feed check buf reads = .stopped b (buf ++ seen) unread ∧
      check (buf ++ seen) = some b ∧ seen ++ unread.flatten = reads.flatten ∧
      unread <:+ reads) ∨
    (feed check buf reads = .starved (buf ++ reads.flatten) ∧ check (buf ++ reads.flatten) = none) := by
  induction reads generalizing buf with
  | nil =>
    cases h : check buf with
    | some b => exact .inl ⟨b, [], [], by simp [feed, h], by simpa using h, rfl, by simp⟩
    | none => exact .inr ⟨by simp [feed, h], by simpa using h⟩
  | cons r rest ih =>
    cases h : check buf with
    | some b =>
      exact .inl ⟨b, [], r :: rest, by simp [feed, h], by simpa using h, by simp, List.suffix_refl _⟩
    | none =>
      rw [feed_read check buf r rest h (hne r (by simp))]
      rcases ih (buf ++ r) fun x hx => hne x (List.mem_cons_of_mem _ hx) with
        ⟨b, seen, unread, hfeed, hb, hseen, hsuf⟩ | ⟨hfeed, hb⟩
      · refine .inl ⟨b, r ++ seen, unread, by rw [hfeed, List.append_assoc], ?_, ?_, ?_⟩
        · rw [← List.append_assoc, hb]
        · rw [List.append_assoc, hseen, List.flatten_cons]
        · exact hsuf.trans (List.suffix_cons r rest)
      · refine .inr ⟨by rw [hfeed, List.flatten_cons, List.append_assoc], ?_⟩
        rw [List.flatten_cons, ← List.append_assoc, hb]

theorem feed_last (check : List α → Option β) (buf : List α) (reads : List (List α)) (b : β)
    (stop : List α) (unread : List (List α)) (h : feed check buf reads = .stopped b stop unread) :
    check stop = some b ∧
      (stop = buf ∨ ∃ q, ∃ r ∈ reads, stop = q ++ r ∧ check q = none) := by
  induction reads generalizing buf with
  | nil =>
    cases hc : check buf with
    | some b' =>
      rw [feed_stop check buf [] b' hc] at h
      cases h
      exact ⟨hc, .inl rfl⟩
    | none => simp [feed, hc] at h
  | cons r rest ih =>
    cases hc : check buf with
    | some b' =>
      rw [feed_stop check buf (r :: rest) b' hc] at h
      cases h
      exact ⟨hc, .inl rfl⟩
    | none =>
      by_cases hr : r = []
      · simp [feed, hc, hr] at h
      · rw [feed_read check buf r rest hc hr] at h
        obtain ⟨hb, hstop | ⟨q, r', hr', hstop, hq⟩⟩ := ih (buf ++ r) h
        · exact ⟨hb, .inr ⟨buf, r, List.mem_cons_self, hstop, hc⟩⟩
        · exact ⟨hb, .inr ⟨q, r', List.mem_cons_of_mem _ hr', hstop, hq⟩⟩

theorem feed_append (check : List α → Option β) (buf : List α) (xs ys : List (List α))
    (hne : ∀ r ∈ xs, r ≠ [])
    (hnone : ∀ n < xs.flatten.length, check (buf ++ xs.flatten.take n) = none) :
    feed check buf (xs ++ ys) = feed check (buf ++ xs.flatten) ys := by
  induction xs generalizing buf with
  | nil => simp
  | cons r rest ih =>
    have hr : r ≠ [] := hne r (by simp)
    have hpos := List.length_pos_of_ne_nil hr
    have h0 := hnone 0 (by rw [List.flatten_cons, List.length_append]; omega)
    rw [List.take_zero, List.append_nil] at h0
    rw [List.cons_append, feed_read check buf r _ h0 hr, ih, List.flatten_cons, List.append_assoc]
    · exact fun x hx => hne x (List.mem_cons_of_mem _ hx)
    · intro n hn
      have := hnone (r.length + n) (by rw [List.flatten_cons, List.length_append]; omega)
      rw [List.flatten_cons, List.take_length_add_append] at this
      rw [List.append_assoc, this]

theorem foldl_read {γ : Type} (check : List α → Option β) (read : γ → List α → γ) (wait : List α → γ)
    (decided : β → γ) (resume : List α → γ)
    (hwait : ∀ buf, check buf = none → resume buf = wait buf)
    (hdecided : ∀ buf b, check buf = some b → resume buf = decided b)
    (hread : ∀ buf r, read (wait buf) r = resume (buf ++ r)) (buf : List α) (reads : List (List α))
    (hne : ∀ r ∈ reads, r ≠ []) :
    (∃ b stop unread, feed check buf reads = .stopped b stop unread ∧
      reads.foldl read (resume buf) = unread.foldl read (decided b) ∧ unread <:+ reads) ∨
    ∃ stop, feed check buf reads = .starved stop ∧ reads.foldl read (resume buf) = wait stop := by
  induction reads generalizing buf with
  | nil =>
    cases hc : check buf with
    | some b => exact .inl ⟨b, buf, [], feed_stop check buf [] b hc, hdecided buf b hc, List.suffix_refl _⟩
    | none => exact .inr ⟨buf, by simp [feed, hc], hwait buf hc⟩
  | cons r rest ih =>
    cases hc : check buf with
    | some b =>
      refine .inl ⟨b, buf, r :: rest, feed_stop check buf _ b hc, ?_, List.suffix_refl _⟩
      rw [hdecided buf b hc]
    | none =>
      rw [feed_read check buf r rest hc (hne r List.mem_cons_self), List.foldl_cons, hwait buf hc, hread]
      rcases ih (buf ++ r) fun x hx => hne x (List.mem_cons_of_mem r hx) with
        ⟨b, stop, unread, hfeed, hfold, hsuf⟩ | hstarved
      · exact .inl ⟨b, stop, unread, hfeed, hfold, hsuf.trans (List.suffix_cons r rest)⟩
      · exact .inr hstarved

end Capcurl.Lib
