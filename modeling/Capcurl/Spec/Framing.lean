import Capcurl.Http.Request

/-! # What body framing means

Which header lists say one thing about the length of the body, and what they say.
-/

namespace Capcurl.Spec

open Lib Http

def isContentLength (field : Header) : Bool := eqIgnoreCase field.1 (ascii "content-length")

def isTransferEncoding (field : Header) : Bool := eqIgnoreCase field.1 (ascii "transfer-encoding")

/-- A plain string of decimal digits that denotes `n`. -/
def Denotes (v : Text) (n : UInt64) : Prop :=
  v ≠ [] ∧ (∀ b ∈ v, isDigit b = true) ∧ value 10 v = n.toNat

def isChunked (v : Text) : Prop := eqIgnoreCase v (ascii "chunked") = true

/-- A declared length of zero is no body. -/
def lengthFraming (n : UInt64) : Framing := if n = 0 then .none else .length n

/-- What a reader makes of one framing field, of which it reads `norm` of the value. -/
def Honours (norm : Text → Text) (field : Header) (framing : Framing) : Prop :=
  (isContentLength field = true ∧ ∃ n, Denotes (norm field.2) n ∧ framing = lengthFraming n) ∨
  (isTransferEncoding field = true ∧ isChunked (norm field.2) ∧ framing = .chunked)

/-- The fields agree on one length and no Transfer-Encoding is there; or the one Transfer-Encoding
is `chunked` and no length is there; or neither is. -/
def Unambiguous (norm : Text → Text) (headers : List Header) (framing : Framing) : Prop :=
  (∃ n, (∃ h ∈ headers, isContentLength h = true) ∧
    (∀ h ∈ headers, isContentLength h = true → Denotes (norm h.2) n) ∧
    (∀ h ∈ headers, isTransferEncoding h = false) ∧ framing = lengthFraming n) ∨
  ((∀ h ∈ headers, isContentLength h = false) ∧
    (∃ h, headers.filter isTransferEncoding = [h] ∧ isChunked (norm h.2)) ∧ framing = .chunked) ∨
  ((∀ h ∈ headers, isContentLength h = false) ∧ (∀ h ∈ headers, isTransferEncoding h = false) ∧
    framing = .none)

theorem denotes_unique (v : Text) (n m : UInt64) (hn : Denotes v n) (hm : Denotes v m) : n = m :=
  UInt64.toNat_inj.mp (hn.2.2.symm.trans hm.2.2)

theorem content_length_not_transfer_encoding (h : Header) (hc : isContentLength h = true) :
    isTransferEncoding h = false := by
  unfold isContentLength at hc
  rw [eqIgnoreCase_iff] at hc
  unfold isTransferEncoding
  rw [Bool.eq_false_iff, ne_eq, eqIgnoreCase_iff, hc]
  decide

theorem honours_of_unambiguous (norm : Text → Text) (headers : List Header) (framing : Framing)
    (h : Unambiguous norm headers framing) (field : Header) (hmem : field ∈ headers)
    (hfield : isContentLength field = true ∨ isTransferEncoding field = true) :
    Honours norm field framing ∧ ∀ other, Honours norm field other → other = framing := by
  rcases h with ⟨n, -, hall, hte, rfl⟩ | ⟨hcl, ⟨te, hfilter, hchunked⟩, rfl⟩ | ⟨hcl, hte, -⟩
  · have hc : isContentLength field = true := by
      rcases hfield with hc | ht
      · exact hc
      · simp [hte field hmem] at ht
    refine ⟨.inl ⟨hc, n, hall field hmem hc, rfl⟩, ?_⟩
    rintro other (⟨-, m, hm, rfl⟩ | ⟨ht, -⟩)
    · rw [denotes_unique _ _ _ hm (hall field hmem hc)]
    · simp [hte field hmem] at ht
  · have ht : isTransferEncoding field = true := by
      rcases hfield with hc | ht
      · simp [hcl field hmem] at hc
      · exact ht
    have hin : field ∈ headers.filter isTransferEncoding := List.mem_filter.mpr ⟨hmem, ht⟩
    rw [hfilter, List.mem_singleton] at hin
    subst hin
    refine ⟨.inr ⟨ht, hchunked, rfl⟩, ?_⟩
    rintro other (⟨hc, -⟩ | ⟨-, -, rfl⟩)
    · simp [hcl field hmem] at hc
    · rfl
  · rcases hfield with hc | ht
    · simp [hcl field hmem] at hc
    · simp [hte field hmem] at ht

/-! ## What does not matter: order, letter case, agreeing repetition -/

theorem unambiguous_perm (norm : Text → Text) (headers headers' : List Header) (framing : Framing)
    (hperm : headers.Perm headers') (h : Unambiguous norm headers framing) :
    Unambiguous norm headers' framing := by
  have hmem : ∀ x, x ∈ headers' ↔ x ∈ headers := fun x => hperm.mem_iff.symm
  rcases h with ⟨n, hany, hall, hte, rfl⟩ | ⟨hcl, ⟨te, hfilter, hchunked⟩, rfl⟩ | ⟨hcl, hte, rfl⟩
  · exact .inl ⟨n, by simpa only [hmem] using hany, by simpa only [hmem] using hall,
      by simpa only [hmem] using hte, rfl⟩
  · refine .inr (.inl ⟨by simpa only [hmem] using hcl, ⟨te, ?_, hchunked⟩, rfl⟩)
    have := hperm.filter isTransferEncoding
    rw [hfilter] at this
    exact List.perm_singleton.mp this.symm
  · exact .inr (.inr ⟨by simpa only [hmem] using hcl, by simpa only [hmem] using hte, rfl⟩)

def foldName (field : Header) : Header := (lowercase field.1, field.2)

@[simp]
theorem isContentLength_foldName (h : Header) : isContentLength (foldName h) = isContentLength h := by
  simp [isContentLength, eqIgnoreCase, foldName]

@[simp]
theorem isTransferEncoding_foldName (h : Header) :
    isTransferEncoding (foldName h) = isTransferEncoding h := by
  simp [isTransferEncoding, eqIgnoreCase, foldName]

theorem filter_foldName (headers : List Header) :
    (headers.map foldName).filter isTransferEncoding =
      (headers.filter isTransferEncoding).map foldName := by
  rw [List.filter_map]
  congr 1
  exact List.filter_congr fun x _ => isTransferEncoding_foldName x

theorem unambiguous_foldName (norm : Text → Text) (headers : List Header) (framing : Framing) :
    Unambiguous norm (headers.map foldName) framing ↔ Unambiguous norm headers framing := by
  have hone : (∃ x, (headers.map foldName).filter isTransferEncoding = [x] ∧ isChunked (norm x.2)) ↔
      ∃ x, headers.filter isTransferEncoding = [x] ∧ isChunked (norm x.2) := by
    rw [filter_foldName]
    constructor
    · rintro ⟨x, hx, hchunked⟩
      obtain ⟨y, hy, rfl⟩ := List.map_eq_singleton_iff.mp hx
      exact ⟨y, hy, hchunked⟩
    · rintro ⟨x, hx, hchunked⟩
      exact ⟨foldName x, by rw [hx, List.map_singleton], hchunked⟩
  unfold Unambiguous
  rw [hone]
  simp only [List.mem_map, exists_exists_and_eq_and, forall_exists_index, and_imp,
    forall_apply_eq_imp_iff₂, isContentLength_foldName, isTransferEncoding_foldName]
  rfl

theorem unambiguous_repeat (norm : Text → Text) (a b : List Header) (field twin : Header)
    (n : UInt64) (hmem : field ∈ a ++ b) (hc : isContentLength field = true)
    (hc' : isContentLength twin = true) (hn : Denotes (norm field.2) n)
    (hn' : Denotes (norm twin.2) n) (framing : Framing) :
    Unambiguous norm (a ++ twin :: b) framing ↔ Unambiguous norm (a ++ b) framing := by
  have hmem' : field ∈ a ++ twin :: b := by
    rcases List.mem_append.mp hmem with h | h <;> simp [h]
  have hte := content_length_not_transfer_encoding twin hc'
  have hsub : ∀ x, x ∈ a ++ twin :: b ↔ x = twin ∨ x ∈ a ++ b := by
    intro x
    simp only [List.mem_append, List.mem_cons]
    tauto
  constructor
  · rintro (⟨m, -, hall, hnone, rfl⟩ | ⟨hcl, -⟩ | ⟨hcl, -⟩)
    · exact .inl ⟨m, ⟨field, hmem, hc⟩, fun x hx => hall x ((hsub x).mpr (.inr hx)),
        fun x hx => hnone x ((hsub x).mpr (.inr hx)), rfl⟩
    · simp [hcl field hmem'] at hc
    · simp [hcl field hmem'] at hc
  · rintro (⟨m, -, hall, hnone, rfl⟩ | ⟨hcl, -⟩ | ⟨hcl, -⟩)
    · obtain rfl := denotes_unique _ _ _ (hall field hmem hc) hn
      refine .inl ⟨m, ⟨field, hmem', hc⟩, ?_, ?_, rfl⟩
      · intro x hx hxc
        rcases (hsub x).mp hx with rfl | hx
        · exact hn'
        · exact hall x hx hxc
      · intro x hx
        rcases (hsub x).mp hx with rfl | hx
        · exact hte
        · exact hnone x hx
    · simp [hcl field hmem] at hc
    · simp [hcl field hmem] at hc

end Capcurl.Spec
