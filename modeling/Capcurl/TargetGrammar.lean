import Capcurl.Escapes
import Capcurl.Target

/-! # The language of `normalize_target` -/

namespace Capcurl.TargetGrammar

open Lib Policy Spec Target Escapes

/-! ## The grammar -/

/-- Every percent sign begins an escape, of two hex digits. -/
inductive Escaped : Text → Prop where
  | nil : Escaped []
  | plain {b : Byte} {rest : Text} : b ≠ ch '%' → Escaped rest → Escaped (b :: rest)
  | escape {hi lo : Byte} {rest : Text} : isHexDigit hi = true → isHexDigit lo = true → Escaped rest →
    Escaped (ch '%' :: hi :: lo :: rest)

/-- A segment that names something within its directory, also once it is decoded. -/
def NamesChild (allowSeparators : Bool) (s : Text) : Prop :=
  decode s ≠ ascii "." ∧ decode s ≠ ascii ".." ∧
    (allowSeparators = false → ∀ b ∈ decode s, isSeparator b = false)

/-- A target in origin form, with its parts. -/
structure IsTarget (allowSeparators : Bool) (target : Text) (n : NormalizedTarget) : Prop where
  length : target.length ≤ maxTargetLen
  graphic : target.all isGraphic = true
  parts : target = ch '/' :: n.path ++ (n.query.elim [] fun query => ch '?' :: query)
  noFragment : ch '#' ∉ target
  noQueryMark : ch '?' ∉ n.path
  escaped : Escaped n.path
  escapedQuery : ∀ query, n.query = some query → Escaped query
  children : ∀ s ∈ segments n.path, NamesChild allowSeparators s
  interior : ∀ s ∈ (segments n.path).dropLast, s ≠ []

/-! ## The checks -/

theorem checkEscapes_iff (s : Text) : checkEscapes s = .ok () ↔ Escaped s := by
  constructor
  · intro h
    induction s using decode_induction with
    | nil => exact .nil
    | escape hi lo rest m n hm hn ih =>
      rw [checkEscapes_digits hi lo rest m n hm hn] at h
      refine .escape ?_ ?_ (ih h)
      · rw [← toDigit_isSome, hm]
        rfl
      · rw [← toDigit_isSome, hn]
        rfl
    | plain b rest hno ih =>
      by_cases hb : b = ch '%'
      · subst hb
        rw [(walkers_stop rest hno).1] at h
        cases h
      · rw [checkEscapes_plain b rest hb] at h
        exact .plain hb (ih h)
  · intro h
    induction h with
    | nil => rfl
    | plain hb _ ih => rw [checkEscapes_plain _ _ hb, ih]
    | escape hhi hlo _ ih =>
      rw [checkEscapes_escape, hhi, hlo]
      exact ih

theorem goodSegment_iff (allow : Bool) (s : Text) (h : Escaped s) :
    GoodSegment allow s ↔ NamesChild allow s := by
  have hdecode := percentDecode_of_check s ((checkEscapes_iff s).mpr h)
  constructor
  · rintro ⟨d, hd, hdots⟩
    rw [hdecode, Except.ok.injEq] at hd
    subst hd
    exact hdots
  · intro hchild
    exact ⟨decode s, hdecode, hchild⟩

theorem checkPath_iff (allow : Bool) (path : Text) :
    checkPath (ch '/' :: path) allow = .ok () ↔
      Escaped path ∧ (∀ s ∈ segments path, NamesChild allow s) ∧
        ∀ s ∈ (segments path).dropLast, s ≠ [] := by
  have hpieces : Escaped path → ∀ s ∈ segments path, Escaped s := fun h s hs =>
    (checkEscapes_iff s).mp ((checkEscapes_segments path).mp ((checkEscapes_iff path).mpr h) s hs)
  unfold checkPath
  rw [bind_unit_eq_ok, checkEscapes_plain _ _ (by decide), checkEscapes_iff]
  refine and_congr_right fun hescaped => ?_
  rw [List.drop_one, List.tail_cons, checkSegments_iff]
  refine and_congr_left fun _ => forall₂_congr fun s hs => ?_
  exact goodSegment_iff allow s (hpieces hescaped s hs)

/-! ## Both ways -/

theorem isTarget_of_normalize (target : Text) (allow : Bool) (n : NormalizedTarget)
    (h : normalizeTarget target allow = .ok n) : IsTarget allow target n := by
  have haccepted := normalizeTarget_accepted target allow n h
  have hchecked : checkPath (ch '/' :: n.path) allow = .ok () ∧
      ∀ query, n.query = some query → checkEscapes query = .ok () := by
    simp only [normalizeTarget, throw_bind_else_eq_ok, bind_unit_eq_ok] at h
    obtain ⟨-, -, -, -, -, h⟩ := h
    have hslash : ∀ path rest, target = path ++ rest → path ≠ [] → path = ch '/' :: path.drop 1 := by
      intro path rest htarget hne
      cases path with
      | nil => exact absurd rfl hne
      | cons b path =>
        have hparts := haccepted.parts
        rw [htarget, List.cons_append, List.cons_append, List.cons.injEq] at hparts
        rw [hparts.1]
        rfl
    cases hsplit : splitOnce (ch '?') target with
    | none =>
      simp only [hsplit, pure_eq_ok] at h
      obtain ⟨hpath, rfl⟩ := h
      have hnone : ∀ query, (none : Option Text) = some query → checkEscapes query = .ok () := by
        intro query hquery
        cases hquery
      refine ⟨?_, hnone⟩
      rwa [← hslash target [] (List.append_nil _).symm (by rw [haccepted.parts]; simp)]
    | some parts =>
      obtain ⟨path, query⟩ := parts
      obtain ⟨htarget, -⟩ := (splitOnce_eq_some_iff _ _ _ _).mp hsplit
      simp only [hsplit, bind_unit_eq_ok, pure_eq_ok] at h
      obtain ⟨hpath, hquery, rfl⟩ := h
      refine ⟨?_, fun _ h => Option.some.inj h ▸ hquery⟩
      rwa [← hslash path _ htarget ?_]
      rintro rfl
      have hparts := haccepted.parts
      rw [htarget, List.nil_append, List.cons_append, List.cons.injEq] at hparts
      exact absurd hparts.1 (by decide)
  obtain ⟨hescaped, hchildren, hinterior⟩ := (checkPath_iff allow n.path).mp hchecked.1
  exact {
    length := haccepted.length
    graphic := haccepted.graphic
    parts := haccepted.parts
    noFragment := haccepted.noFragment
    noQueryMark := haccepted.noQueryMark
    escaped := hescaped
    escapedQuery := fun query hquery => (checkEscapes_iff query).mp (hchecked.2 query hquery)
    children := hchildren
    interior := hinterior }

theorem not_protocolRelative (allow : Bool) (target : Text) (n : NormalizedTarget)
    (h : IsTarget allow target n) : ¬ ascii "//" <+: target := by
  rintro ⟨rest, hrest⟩
  obtain ⟨path, query⟩ := n
  have hparts := h.parts
  cases path with
  | nil =>
    cases query with
    | none =>
      have hlen := congrArg List.length (hrest.trans hparts)
      simp [ascii] at hlen
    | some query =>
      rw [← hrest] at hparts
      have hsecond := congrArg (fun t : Text => t.drop 1) hparts
      exact absurd (List.cons.inj hsecond).1 (by decide)
  | cons b path =>
    rw [← hrest] at hparts
    have hsecond : (ch '/' : Byte) = b := by
      have hdrop := congrArg (fun t : Text => t.drop 1) hparts
      exact (List.cons.inj hdrop).1
    subst hsecond
    have hsplit : segments (ch '/' :: path) = [] :: segments path :=
      List.splitOn_append_cons_self [] path
    have hfirst : [] ∈ (segments (ch '/' :: path)).dropLast := by
      have hne : segments path ≠ [] := List.splitOn_ne_nil (ch '/') path
      rw [hsplit, List.dropLast_cons_of_ne_nil hne]
      exact List.mem_cons_self
    exact h.interior [] hfirst rfl

theorem normalize_of_isTarget (target : Text) (allow : Bool) (n : NormalizedTarget)
    (h : IsTarget allow target n) : normalizeTarget target allow = .ok n := by
  have hpath := (checkPath_iff allow n.path).mpr ⟨h.escaped, h.children, h.interior⟩
  have horigin : ascii "/" <+: target := by
    rw [h.parts]
    exact ⟨_, rfl⟩
  simp only [normalizeTarget, throw_bind_else_eq_ok, gt_iff_lt, not_lt, Bool.not_eq_true',
    Bool.not_eq_false, Bool.not_eq_true, bind_unit_eq_ok, List.isPrefixOf_iff_prefix,
    List.contains_eq_mem, decide_eq_false_iff_not]
  refine ⟨h.length, h.graphic, horigin, not_protocolRelative allow target n h, h.noFragment, ?_⟩
  · obtain ⟨path, query⟩ := n
    have hmark : ch '?' ∉ ch '/' :: path := by
      rw [List.mem_cons, not_or]
      exact ⟨by decide, h.noQueryMark⟩
    cases query with
    | none =>
      have hparts : target = ch '/' :: path := h.parts.trans (List.append_nil _)
      have hsplit : splitOnce (ch '?') target = none := by
        rw [splitOnce_eq_none_iff, hparts]
        exact hmark
      simp only [hsplit]
      rw [hparts]
      exact ⟨hpath, rfl⟩
    | some query =>
      have hsplit : splitOnce (ch '?') target = some (ch '/' :: path, query) :=
        (splitOnce_eq_some_iff _ _ _ _).mpr ⟨h.parts, hmark⟩
      simp only [hsplit]
      exact ⟨hpath, (bind_unit_eq_ok _ _ _).mpr ⟨(checkEscapes_iff query).mpr (h.escapedQuery query rfl), rfl⟩⟩

/-- **The targets**: `normalize_target` accepts the language of its grammar and nothing else, and returns
the parts of the target as they were written. -/
theorem normalize_target_iff (target : Text) (allow : Bool) (n : NormalizedTarget) :
    normalizeTarget target allow = .ok n ↔ IsTarget allow target n :=
  ⟨isTarget_of_normalize target allow n, normalize_of_isTarget target allow n⟩

end Capcurl.TargetGrammar
