import Capcurl.Spec.Origin

/-! # Approved targets stay below the prefix -/

namespace Capcurl.Target

open Lib Policy Spec

/-! ## What `check_path` lets through -/

def GoodSegment (allowSeparators : Bool) (s : Text) : Prop :=
  ∃ d, percentDecode s = .ok d ∧ d ≠ ascii "." ∧ d ≠ ascii ".." ∧
    (allowSeparators = false → ∀ b ∈ d, isSeparator b = false)

theorem goodSegment_nil (allow : Bool) : GoodSegment allow [] :=
  ⟨[], rfl, by decide, by decide, by simp⟩

theorem checkSegment_iff (allow last : Bool) (s : Text) :
    checkSegment allow last s = .ok () ↔ (s = [] → last = true) ∧ GoodSegment allow s := by
  unfold checkSegment
  by_cases hs : s = []
  · subst hs
    simp only [List.isEmpty_nil, if_true, forall_const, goodSegment_nil, and_true]
    cases last
    · exact iff_of_false (by rintro ⟨⟩) (by simp)
    · exact iff_of_true rfl rfl
  · have hsep : ∀ d : Bytes, ¬ (!allow && d.any fun b => b == ch '/' || b == ch '\\') = true ↔
        (allow = false → ∀ b ∈ d, isSeparator b = false) := by
      intro d
      cases allow <;> simp [isSeparator]
    simp only [List.isEmpty_eq_false_iff.mpr hs, Bool.false_eq_true, if_false, hs, false_implies,
      true_and, bind_eq_ok, throw_bind_else_eq_ok, throw_else_eq_ok, not_or, hsep, pure_eq_ok,
      and_true, GoodSegment, and_assoc]

theorem checkSegments_iff (allow : Bool) (segs : List Text) :
    checkSegments allow segs = .ok () ↔
      (∀ s ∈ segs, GoodSegment allow s) ∧ ∀ s ∈ segs.dropLast, s ≠ [] := by
  induction segs with
  | nil => simp [checkSegments, pure, Except.pure]
  | cons s segs ih =>
    unfold checkSegments
    rw [bind_unit_eq_ok, checkSegment_iff, ih]
    cases segs with
    | nil => simp
    | cons next segs =>
      simp only [List.isEmpty_cons, Bool.false_eq_true, imp_false, List.mem_cons, forall_eq_or_imp,
        List.dropLast_cons_cons, ne_eq]
      tauto

/-! ## What `normalize_target` lets through -/

/-- The target is `/`, the path, and perhaps a query; each part is what it should be. -/
structure Accepted (allowSeparators : Bool) (target : Text) (n : NormalizedTarget) : Prop where
  length : target.length ≤ maxTargetLen
  graphic : target.all isGraphic = true
  parts : target = ch '/' :: n.path ++ (n.query.elim [] fun query => ch '?' :: query)
  noFragment : ch '#' ∉ target
  noQueryMark : ch '?' ∉ n.path
  good : ∀ s ∈ segments n.path, GoodSegment allowSeparators s
  interior : ∀ s ∈ (segments n.path).dropLast, s ≠ []

theorem checkPath_good (path : Text) (allow : Bool) (h : checkPath path allow = .ok ()) :
    (∀ s ∈ segments (path.drop 1), GoodSegment allow s) ∧
      ∀ s ∈ (segments (path.drop 1)).dropLast, s ≠ [] := by
  unfold checkPath at h
  rw [bind_unit_eq_ok] at h
  exact (checkSegments_iff allow _).mp h.2

theorem normalizeTarget_accepted (target : Text) (allow : Bool) (n : NormalizedTarget)
    (h : normalizeTarget target allow = .ok n) : Accepted allow target n := by
  simp only [normalizeTarget, throw_bind_else_eq_ok, gt_iff_lt, not_lt, Bool.not_eq_true',
    Bool.not_eq_false, Bool.not_eq_true, bind_unit_eq_ok, List.isPrefixOf_iff_prefix,
    List.contains_eq_mem, decide_eq_false_iff_not] at h
  obtain ⟨hlen, hgraphic, ⟨rest, rfl⟩, -, hhash, h⟩ := h
  cases hsplit : splitOnce (ch '?') (ascii "/" ++ rest) with
  | none =>
    simp only [hsplit, pure_eq_ok] at h
    obtain ⟨hpath, rfl⟩ := h
    have hmark := (splitOnce_eq_none_iff _ _).mp hsplit
    obtain ⟨hgood, hinterior⟩ := checkPath_good _ _ hpath
    exact ⟨hlen, hgraphic, (List.append_nil _).symm, hhash,
      fun hm => hmark (List.mem_cons_of_mem _ hm), hgood, hinterior⟩
  | some parts =>
    obtain ⟨path, query⟩ := parts
    obtain ⟨htarget, hmark⟩ := (splitOnce_eq_some_iff _ _ _ _).mp hsplit
    simp only [hsplit, bind_unit_eq_ok, pure_eq_ok] at h
    obtain ⟨hpath, -, rfl⟩ := h
    obtain ⟨hgood, hinterior⟩ := checkPath_good _ _ hpath
    -- The target starts with a slash, so the path before the query does.
    obtain ⟨path', rfl⟩ : ∃ path', path = ch '/' :: path' := by
      cases path with
      | nil => exact absurd (List.cons.inj htarget).1 (by decide)
      | cons b path => exact ⟨path, by rw [← (List.cons.inj htarget).1]; rfl⟩
    exact ⟨hlen, hgraphic, htarget, hhash, fun hm => hmark (List.mem_cons_of_mem _ hm), hgood,
      hinterior⟩

theorem Accepted.split (allow : Bool) (target : Text) (n : NormalizedTarget) (h : Accepted allow target n) :
    splitOnce (ch '?') target = n.query.map fun query => (ch '/' :: n.path, query) := by
  have hmark : ch '?' ∉ ch '/' :: n.path := by
    rw [List.mem_cons, not_or]
    exact ⟨by decide, h.noQueryMark⟩
  rw [h.parts]
  cases n.query with
  | none =>
    rw [Option.elim_none, List.append_nil]
    exact (splitOnce_eq_none_iff _ _).mpr hmark
  | some query => exact splitOnce_append _ _ _ hmark

theorem normalizeTarget_unique (target : Text) (allow allow' : Bool) (n n' : NormalizedTarget)
    (h : normalizeTarget target allow = .ok n) (h' : normalizeTarget target allow' = .ok n') : n' = n := by
  have hgood := normalizeTarget_accepted _ _ _ h
  have hgood' := normalizeTarget_accepted _ _ _ h'
  have hsame := hgood.split.symm.trans hgood'.split
  have hparts := hgood.parts.symm.trans hgood'.parts
  obtain ⟨path, query⟩ := n
  obtain ⟨path', query'⟩ := n'
  cases query <;> cases query'
  · simpa using hparts.symm
  · cases hsame
  · cases hsame
  · simpa [eq_comm] using hsame

/-! ## No reading leaves the prefix -/

theorem goodSegment_plain (s : Text) (h : GoodSegment false s) : PlainSegment s := by
  obtain ⟨d, hd, hdot, hdotDot, hsep⟩ := h
  unfold PlainSegment
  rw [percentDecode_decode s d hd]
  exact ⟨hdot, hdotDot, hsep rfl⟩

theorem decode_ne_nil (s : Text) (h : s ≠ []) : decode s ≠ [] := by
  induction s using decode_induction with
  | nil => exact absurd rfl h
  | escape hi lo rest m n hh hl _ => simp [decode_escape _ _ _ _ _ hh hl]
  | plain b rest hno _ => simp [decode_plain b rest hno]

theorem segments_join (base path : Text) :
    [ch '/'].intercalate (segments base ++ segments path) = base ++ ch '/' :: path := by
  have hjoin : segments (base ++ ch '/' :: path) = segments base ++ segments path :=
    List.splitOn_append_cons_self base path
  rw [← hjoin]
  exact List.intercalate_splitOn (ch '/')

theorem segments_flatMap (base : Text) : (segments base).flatMap (· ++ [ch '/']) = base ++ [ch '/'] := by
  have hjoin := segments_join base []
  rw [intercalate_append _ _ _ (by simp [segments])] at hjoin
  simpa [segments] using hjoin

/-- **Targets stay below.** Below a base that ends in a slash and has no dot segment or separator
hidden in its own segments, an approved path names one location in every order of decoding,
splitting and resolving: the segments of the base, and then its own, one for one. -/
theorem approved_target_stays_below (base target : Text) (n : NormalizedTarget)
    (hbase : base.getLast? = some (ch '/'))
    (hown : ∀ s ∈ segments base.dropLast, PlainSegment s)
    (haccepted : normalizeTarget target false = .ok n) :
    (∀ sep ∈ [isSlash, isSeparator],
      decodeThenResolve sep (base ++ n.path) =
        (segments base.dropLast).map decode ++ (segments n.path).map decode ∧
      resolveThenDecode sep (base ++ n.path) =
        (segments base.dropLast).map decode ++ (segments n.path).map decode) ∧
    ∀ s ∈ (segments n.path).dropLast, decode s ≠ [] := by
  have hgood := normalizeTarget_accepted target false n haccepted
  constructor
  · intro sep hsep
    obtain ⟨hslash, hsmaller⟩ :
        sep (ch '/') = true ∧ ∀ b, isSeparator b = false → sep b = false := by
      rcases List.mem_pair.mp hsep with rfl | rfl
      · exact ⟨by decide, by grind [isSeparator, isSlash]⟩
      · exact ⟨by decide, fun b hb => hb⟩
    have hjoin : base ++ n.path =
        [ch '/'].intercalate (segments base.dropLast ++ segments n.path) := by
      rw [segments_join, List.append_cons, List.dropLast_append_getLast? _ hbase]
    rw [hjoin, ← List.map_append]
    apply reading_plain sep hslash hsmaller
    · simp [segments]
    · intro s hs
      rcases List.mem_append.mp hs with hs | hs
      · exact hown s hs
      · exact goodSegment_plain s (hgood.good s hs)
  · intro s hs
    exact decode_ne_nil s (hgood.interior s hs)

theorem approved_target_stays_below_escaped :
    decodeThenResolve isSeparator (ascii "/a%20b/" ++ ascii "%2e.x/y") =
      [[], ascii "a b", ascii "..x", ascii "y"] := by
  have hown : ∀ s ∈ segments (ascii "/a%20b/").dropLast, PlainSegment s := by
    have hsegs : segments (ascii "/a%20b/").dropLast = [[], ascii "a%20b"] := by decide
    rw [hsegs]
    simp only [List.mem_cons, List.not_mem_nil, or_false, forall_eq_or_imp, forall_eq]
    refine ⟨⟨by decide, by decide, ?_⟩, by decide, by decide, ?_⟩ <;>
      simpa using (by decide : (decode _).all (fun b => !isSeparator b) = true)
  have h := approved_target_stays_below (ascii "/a%20b/") (ascii "/%2e.x/y?z=%2f")
    ⟨ascii "%2e.x/y", some (ascii "z=%2f")⟩ (by decide) hown
    (by decide +kernel)
  rw [(h.1 isSeparator (by simp)).1]
  decide

end Capcurl.Target
