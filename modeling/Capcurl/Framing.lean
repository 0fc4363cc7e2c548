import Capcurl.Spec.Framing

/-! # `framing_of` accepts exactly the unambiguous header lists -/

namespace Capcurl.Framing

open Lib Http Spec

/-! ## One Content-Length -/

theorem parseContentLength_iff (v : Text) (n : UInt64) :
    parseContentLength v = .ok n ↔ Denotes (trim v) n := by
  unfold parseContentLength
  by_cases hdigits : trim v ≠ [] ∧ ∀ b ∈ trim v, isDigit b = true
  · obtain ⟨hne, hall⟩ := hdigits
    have hcond : ((trim v).isEmpty || !(trim v).all isDigit) = false := by
      simpa [hne] using hall
    have hplus : ch '+' ∉ trim v := fun hp => hex_ne_plus _ (hex_of_digit _ (hall _ hp)) rfl
    have hparse := parseUnsigned_digits 10 u64Bound (trim v) hne hplus
      fun b hb => digitValue_of_digit b (hall b hb)
    simp only [hcond, Bool.false_eq_true, if_false, hparse]
    split
    · rename_i m hm
      split at hm
      · rename_i hlt
        obtain rfl := Option.some.inj hm
        have hnat : (UInt64.ofNat (value 10 (trim v))).toNat = value 10 (trim v) := by
          rw [UInt64.toNat_ofNat']
          exact Nat.mod_eq_of_lt hlt
        constructor
        · intro h
          rw [← Except.ok.inj h]
          exact ⟨hne, hall, hnat.symm⟩
        · rintro ⟨-, -, hv⟩
          exact congrArg Except.ok (UInt64.toNat_inj.mp (by rw [hnat, hv]))
      · simp at hm
    · rename_i hm
      split at hm
      · simp at hm
      · rename_i hlt
        constructor
        · intro h
          cases h
        · rintro ⟨-, -, hv⟩
          exact absurd (hv ▸ n.toNat_lt) hlt
  · have hcond : ((trim v).isEmpty || !(trim v).all isDigit) = true := by
      by_contra hn
      apply hdigits
      simpa using hn
    simp only [hcond, if_true]
    constructor
    · intro h
      cases h
    · rintro ⟨hne, hall, -⟩
      exact absurd ⟨hne, hall⟩ hdigits

/-! ## The loop -/

/-- The length the loop has in hand after a list of fields. -/
def SawLength (headers : List Header) : Option UInt64 → Prop
  | none => ∀ h ∈ headers, isContentLength h = false
  | some n => (∃ h ∈ headers, isContentLength h = true) ∧
    ∀ h ∈ headers, isContentLength h = true → Denotes (trim h.2) n

def SawEncoding (headers : List Header) : Bool → Prop
  | false => headers.filter isTransferEncoding = []
  | true => ∃ h, headers.filter isTransferEncoding = [h] ∧ isChunked (trim h.2)

def Saw (headers : List Header) (seen : Seen) : Prop :=
  SawLength headers seen.1 ∧ SawEncoding headers seen.2

theorem framingStep_iff (seen seen' : Seen) (h : Header) :
    framingStep seen h = .ok seen' ↔
      (isContentLength h = true ∧ ∃ n, Denotes (trim h.2) n ∧ (∀ m, seen.1 = some m → m = n) ∧
        seen' = (some n, seen.2)) ∨
      (isTransferEncoding h = true ∧ isChunked (trim h.2) ∧ seen.2 = false ∧ seen' = (seen.1, true)) ∨
      (isContentLength h = false ∧ isTransferEncoding h = false ∧ seen' = seen) := by
  obtain ⟨cl, te⟩ := seen
  unfold framingStep
  by_cases hc : isContentLength h = true
  · have ht := content_length_not_transfer_encoding h hc
    have hc' : eqIgnoreCase h.1 (ascii "content-length") = true := hc
    simp only [hc', if_true, hc, ht, Bool.false_eq_true, false_and, or_false, true_and,
      Bool.true_eq_false]
    cases hp : parseContentLength h.2 with
    | error e =>
      have hnone : ∀ n, ¬ Denotes (trim h.2) n := by
        intro n hn
        rw [(parseContentLength_iff h.2 n).mpr hn] at hp
        cases hp
      simp [bind, Except.bind, hnone]
    | ok n =>
      have hn := (parseContentLength_iff h.2 n).mp hp
      have huniq : ∀ m, Denotes (trim h.2) m ↔ m = n :=
        fun m => ⟨fun hm => denotes_unique _ _ _ hm hn, fun hm => hm ▸ hn⟩
      simp only [bind, Except.bind, huniq, exists_eq_left]
      cases cl with
      | none => simp [pure, Except.pure, eq_comm]
      | some m =>
        by_cases hm : m = n
        · simp [hm, pure, Except.pure, eq_comm]
        · simp [hm, throw, throwThe, MonadExceptOf.throw]
  · have hc' : eqIgnoreCase h.1 (ascii "content-length") = false := Bool.eq_false_iff.mpr hc
    have hcf : isContentLength h = false := hc'
    simp only [hc', hcf, Bool.false_eq_true, if_false, false_and, false_or, true_and]
    by_cases ht : isTransferEncoding h = true
    · have ht' : eqIgnoreCase h.1 (ascii "transfer-encoding") = true := ht
      simp only [ht', ht, if_true, true_and, Bool.true_eq_false, false_and, or_false]
      by_cases hch : eqIgnoreCase (trim h.2) (ascii "chunked") = true
      · cases te <;> simp [hch, isChunked, bind, Except.bind, pure, Except.pure, throw, throwThe,
          MonadExceptOf.throw, eq_comm]
      · simp [hch, isChunked, bind, Except.bind, throw, throwThe, MonadExceptOf.throw]
    · have ht' : eqIgnoreCase h.1 (ascii "transfer-encoding") = false := Bool.eq_false_iff.mpr ht
      have htf : isTransferEncoding h = false := ht'
      simp [ht', htf, pure, Except.pure, eq_comm]

theorem saw_nil (seen : Seen) : Saw [] seen ↔ seen = (none, false) := by
  obtain ⟨cl, te⟩ := seen
  cases cl <;> cases te <;> simp [Saw, SawLength, SawEncoding]

theorem sawLength_other (headers : List Header) (h : Header) (hc : isContentLength h = false)
    (cl : Option UInt64) : SawLength (headers ++ [h]) cl ↔ SawLength headers cl := by
  cases cl with
  | none => simp [SawLength, hc, or_imp, forall_and]
  | some n => simp [SawLength, hc, or_imp, forall_and, or_and_right, exists_or]

theorem sawLength_field (headers : List Header) (h : Header) (hc : isContentLength h = true)
    (cl' : Option UInt64) :
    SawLength (headers ++ [h]) cl' ↔ ∃ cl, SawLength headers cl ∧ ∃ n, Denotes (trim h.2) n ∧
      (∀ m, cl = some m → m = n) ∧ cl' = some n := by
  constructor
  · intro hsaw
    cases cl' with
    | none =>
      have := hsaw h (by simp)
      simp [hc] at this
    | some n =>
      obtain ⟨-, hall⟩ := hsaw
      have hn : Denotes (trim h.2) n := hall h (by simp) hc
      by_cases hany : ∃ x ∈ headers, isContentLength x = true
      · refine ⟨some n, ⟨hany, ?_⟩, n, hn, by simp, rfl⟩
        intro x hx
        exact hall x (by simp [hx])
      · refine ⟨none, ?_, n, hn, by simp, rfl⟩
        intro x hx
        exact Bool.eq_false_iff.mpr fun hxc => hany ⟨x, hx, hxc⟩
  · rintro ⟨cl, hsaw, n, hn, hagree, rfl⟩
    refine ⟨⟨h, by simp, hc⟩, ?_⟩
    intro x hx hxc
    rcases List.mem_append.mp hx with hx | hx
    · cases cl with
      | none => simp [hsaw x hx] at hxc
      | some m =>
        obtain rfl := hagree m rfl
        exact hsaw.2 x hx hxc
    · rw [List.mem_singleton.mp hx]
      exact hn

theorem sawEncoding_other (headers : List Header) (h : Header) (ht : isTransferEncoding h = false)
    (te : Bool) : SawEncoding (headers ++ [h]) te ↔ SawEncoding headers te := by
  cases te <;> simp [SawEncoding, ht]

theorem sawEncoding_field (headers : List Header) (h : Header) (ht : isTransferEncoding h = true)
    (te' : Bool) :
    SawEncoding (headers ++ [h]) te' ↔
      SawEncoding headers false ∧ isChunked (trim h.2) ∧ te' = true := by
  have hfilter : (headers ++ [h]).filter isTransferEncoding =
      headers.filter isTransferEncoding ++ [h] := by simp [ht]
  cases te' with
  | false => simp [SawEncoding, ht]
  | true =>
    simp only [SawEncoding, hfilter, and_true]
    constructor
    · rintro ⟨x, hx, hchunked⟩
      have hnil : headers.filter isTransferEncoding = [] := by
        have := congrArg List.length hx
        simp only [List.length_append, List.length_singleton] at this
        exact List.eq_nil_of_length_eq_zero (by omega)
      rw [hnil, List.nil_append, List.cons.injEq] at hx
      rw [hx.1]
      exact ⟨hnil, hchunked⟩
    · rintro ⟨hnil, hchunked⟩
      exact ⟨h, by rw [hnil, List.nil_append], hchunked⟩

theorem saw_snoc (headers : List Header) (h : Header) (seen' : Seen) :
    Saw (headers ++ [h]) seen' ↔ ∃ seen, Saw headers seen ∧ framingStep seen h = .ok seen' := by
  obtain ⟨cl', te'⟩ := seen'
  by_cases hc : isContentLength h = true
  · have ht := content_length_not_transfer_encoding h hc
    simp only [Saw, framingStep_iff, sawLength_field headers h hc, sawEncoding_other headers h ht]
    constructor
    · rintro ⟨⟨cl, hcl, n, hn, hagree, rfl⟩, hte⟩
      exact ⟨(cl, te'), ⟨hcl, hte⟩, .inl ⟨hc, n, hn, hagree, rfl⟩⟩
    · rintro ⟨⟨cl, te⟩, ⟨hcl, hte⟩, ⟨-, n, hn, hagree, heq⟩ | ⟨hf, -⟩ | ⟨hf, -⟩⟩
      · obtain ⟨rfl, rfl⟩ := Prod.mk.inj heq
        exact ⟨⟨cl, hcl, n, hn, hagree, rfl⟩, hte⟩
      · simp [ht] at hf
      · simp [hc] at hf
  · have hcf : isContentLength h = false := Bool.eq_false_iff.mpr hc
    by_cases ht : isTransferEncoding h = true
    · simp only [Saw, framingStep_iff, sawLength_other headers h hcf, sawEncoding_field headers h ht]
      constructor
      · rintro ⟨hcl, hte, hchunked, rfl⟩
        exact ⟨(cl', false), ⟨hcl, hte⟩, .inr (.inl ⟨ht, hchunked, rfl, rfl⟩)⟩
      · rintro ⟨⟨cl, te⟩, ⟨hcl, hte⟩, ⟨hf, -⟩ | ⟨-, hchunked, hfalse, heq⟩ | ⟨-, hf, -⟩⟩
        · exact absurd hf hc
        · obtain ⟨rfl, rfl⟩ := Prod.mk.inj heq
          obtain rfl : te = false := hfalse
          exact ⟨hcl, hte, hchunked, rfl⟩
        · simp [ht] at hf
    · have htf : isTransferEncoding h = false := Bool.eq_false_iff.mpr ht
      simp only [Saw, framingStep_iff, sawLength_other headers h hcf,
        sawEncoding_other headers h htf]
      constructor
      · intro hsaw
        exact ⟨(cl', te'), hsaw, .inr (.inr ⟨hcf, htf, rfl⟩)⟩
      · rintro ⟨seen, hsaw, ⟨hf, -⟩ | ⟨hf, -⟩ | ⟨-, -, heq⟩⟩
        · exact absurd hf hc
        · exact absurd hf ht
        · subst heq
          exact hsaw

theorem framing_fold_iff (headers : List Header) (seen : Seen) :
    headers.foldlM framingStep (none, false) = .ok seen ↔ Saw headers seen := by
  induction headers using List.reverseRecOn generalizing seen with
  | nil =>
    rw [saw_nil]
    constructor
    · intro h
      exact (Except.ok.inj h).symm
    · rintro rfl
      rfl
  | append_singleton headers h ih =>
    rw [saw_snoc, List.foldlM_append]
    simp only [List.foldlM_cons, List.foldlM_nil, bind_pure]
    constructor
    · intro hfold
      cases hseen : headers.foldlM framingStep (none, false) with
      | error e =>
        rw [hseen] at hfold
        cases hfold
      | ok mid =>
        rw [hseen] at hfold
        exact ⟨mid, (ih mid).mp hseen, hfold⟩
    · rintro ⟨mid, hmid, hstep⟩
      rw [(ih mid).mpr hmid]
      exact hstep

theorem framingEnd_iff (seen : Seen) (framing : Framing) :
    framingEnd seen = .ok framing ↔
      (∃ n, seen = (some n, false) ∧ framing = lengthFraming n) ∨
      (seen = (none, true) ∧ framing = .chunked) ∨ (seen = (none, false) ∧ framing = .none) := by
  obtain ⟨cl, te⟩ := seen
  cases cl <;> cases te <;>
    simp [framingEnd, lengthFraming, pure, Except.pure, throw, throwThe, MonadExceptOf.throw, eq_comm]

theorem framingOf_iff (headers : List Header) (framing : Framing) :
    framingOf headers = .ok framing ↔ Unambiguous trim headers framing := by
  have hbind : framingOf headers = .ok framing ↔
      ∃ seen, Saw headers seen ∧ framingEnd seen = .ok framing := by
    unfold framingOf
    constructor
    · intro h
      cases hseen : headers.foldlM framingStep (none, false) with
      | error e =>
        rw [hseen] at h
        cases h
      | ok seen =>
        rw [hseen] at h
        exact ⟨seen, (framing_fold_iff headers seen).mp hseen, h⟩
    · rintro ⟨seen, hsaw, hend⟩
      rw [(framing_fold_iff headers seen).mpr hsaw]
      exact hend
  rw [hbind]
  constructor
  · rintro ⟨seen, ⟨hcl, hte⟩, hend⟩
    rcases (framingEnd_iff seen framing).mp hend with ⟨n, rfl, rfl⟩ | ⟨rfl, rfl⟩ | ⟨rfl, rfl⟩
    · exact .inl ⟨n, hcl.1, hcl.2, by simpa [SawEncoding] using hte, rfl⟩
    · exact .inr (.inl ⟨hcl, hte, rfl⟩)
    · exact .inr (.inr ⟨hcl, by simpa [SawEncoding] using hte, rfl⟩)
  · rintro (⟨n, hany, hall, hte, rfl⟩ | ⟨hcl, hte, rfl⟩ | ⟨hcl, hte, rfl⟩)
    · exact ⟨(some n, false), ⟨⟨hany, hall⟩, by simpa [SawEncoding] using hte⟩,
        (framingEnd_iff _ _).mpr (.inl ⟨n, rfl, rfl⟩)⟩
    · exact ⟨(none, true), ⟨hcl, hte⟩, (framingEnd_iff _ _).mpr (.inr (.inl ⟨rfl, rfl⟩))⟩
    · exact ⟨(none, false), ⟨hcl, by simpa [SawEncoding] using hte⟩,
        (framingEnd_iff _ _).mpr (.inr (.inr ⟨rfl, rfl⟩))⟩

/-- **Accepted framing is unambiguous**, and nothing else is: whatever framing field a reader
honours, it arrives at the framing that was returned, in any order of the fields, any letter case of
their names, and with any agreeing Content-Length repeated. -/
theorem framing_unambiguous :
    (∀ headers framing, framingOf headers = .ok framing ↔ Unambiguous trim headers framing) ∧
    (∀ headers framing, framingOf headers = .ok framing → ∀ field ∈ headers,
      isContentLength field = true ∨ isTransferEncoding field = true →
        Honours trim field framing ∧ ∀ other, Honours trim field other → other = framing) ∧
    (∀ headers headers', List.Perm headers headers' → ∀ framing,
      framingOf headers = .ok framing ↔ framingOf headers' = .ok framing) ∧
    (∀ headers headers' : List Header, headers.map foldName = headers'.map foldName → ∀ framing,
      framingOf headers = .ok framing ↔ framingOf headers' = .ok framing) ∧
    (∀ (a b : List Header) (field twin : Header) (n : UInt64), field ∈ a ++ b →
      isContentLength field = true → isContentLength twin = true → Denotes (trim field.2) n →
      Denotes (trim twin.2) n → ∀ framing,
        framingOf (a ++ b) = .ok framing ↔ framingOf (a ++ twin :: b) = .ok framing) := by
  refine ⟨framingOf_iff, ?_, ?_, ?_, ?_⟩
  · intro headers framing h field hmem hfield
    exact honours_of_unambiguous trim headers framing ((framingOf_iff _ _).mp h) field hmem hfield
  · intro headers headers' hperm framing
    rw [framingOf_iff, framingOf_iff]
    exact ⟨unambiguous_perm trim _ _ framing hperm, unambiguous_perm trim _ _ framing hperm.symm⟩
  · intro headers headers' hfold framing
    rw [framingOf_iff, framingOf_iff, ← unambiguous_foldName, hfold, unambiguous_foldName]
  · intro a b field twin n hmem hc hc' hn hn' framing
    rw [framingOf_iff, framingOf_iff, unambiguous_repeat trim a b field twin n hmem hc hc' hn hn']

/-- White space around a length is not part of the number, so `" 6"` is a length that is not a plain
digit string. -/
theorem padded_length_accepted :
    ¬ ∀ headers framing, framingOf headers = .ok framing → Unambiguous id headers framing := by
  intro h
  have hok : framingOf [(ascii "Content-Length", ascii " 6")] = .ok (.length 6) := by decide
  rcases h _ _ hok with ⟨n, -, hall, -⟩ | ⟨hcl, -⟩ | ⟨hcl, -⟩
  · have hdigits := (hall _ (List.mem_singleton_self _) (by decide)).2.1
    exact absurd (hdigits (ch ' ') (by decide)) (by decide)
  · exact absurd (hcl _ (List.mem_singleton_self _)) (by decide)
  · exact absurd (hcl _ (List.mem_singleton_self _)) (by decide)

end Capcurl.Framing
