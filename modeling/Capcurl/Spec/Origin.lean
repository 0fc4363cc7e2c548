import Capcurl.Lib.Checks
import Capcurl.Policy.Target

/-! # How a reader of a path finds the location it names -/

namespace Capcurl.Spec

open Lib Policy

/-! ## Percent-escapes -/

/-- Decodes every escape once. A `%` that starts none stays. -/
def decode : Text → Bytes
  | b :: hi :: lo :: rest =>
    if b = ch '%' then
      match toDigit 16 hi, toDigit 16 lo with
      | some hi, some lo => UInt8.ofNat (hi * 16 + lo) :: decode rest
      | _, _ => b :: decode (hi :: lo :: rest)
    else b :: decode (hi :: lo :: rest)
  | b :: rest => b :: decode rest
  | [] => []

/-! ## Segments -/

def segments (path : Text) : List Text := path.splitOn (ch '/')

def isSlash (b : Byte) : Bool := b == ch '/'

/-- The separators of a reader that takes a backslash for a slash. -/
def isSeparator (b : Byte) : Bool := b == ch '/' || b == ch '\\'

/-! ## Dot segments -/

def isDot (s : Text) : Bool := s == ascii "."

def isDotDot (s : Text) : Bool := s == ascii ".."

/-- `.`, however it is escaped. -/
def spellsDot (s : Text) : Bool := (["." , "%2e"].map ascii).contains (lowercase s)

/-- `..`, however it is escaped. -/
def spellsDotDot (s : Text) : Bool :=
  ([".." , ".%2e", "%2e.", "%2e%2e"].map ascii).contains (lowercase s)

def leave (last : Bool) (out : List Text) : List Text := if last then out ++ [[]] else out

/-- One segment, with `out` the segments that stand so far. -/
def resolveTurn (dot dotDot : Text → Bool) (out : List Text) (s : Text) (last : Bool) : List Text :=
  if dotDot s then leave last out.dropLast
  else if dot s then leave last out
  else out ++ [s]

def resolveDots (dot dotDot : Text → Bool) (out : List Text) : List Text → List Text
  | [] => out
  | s :: rest => resolveDots dot dotDot (resolveTurn dot dotDot out s rest.isEmpty) rest

/-- What stands before the first separator is the root, which nothing takes out. -/
def resolveBelowRoot (dot dotDot : Text → Bool) : List Text → List Text
  | [] => []
  | root :: rest => root :: resolveDots dot dotDot [] rest

def decodeThenResolve (sep : Byte → Bool) (path : Text) : List Bytes :=
  resolveBelowRoot isDot isDotDot ((decode path).splitOnP sep)

def resolveThenDecode (sep : Byte → Bool) (path : Text) : List Bytes :=
  (resolveBelowRoot spellsDot spellsDotDot (path.splitOnP sep)).map decode

/-- A segment that no reading takes for anything but a name. -/
def PlainSegment (s : Text) : Prop :=
  decode s ≠ ascii "." ∧ decode s ≠ ascii ".." ∧ ∀ b ∈ decode s, isSeparator b = false

theorem separator_no_escape (b : Byte) (h : isSeparator b = true) : b ≠ ch '%' ∧ toDigit 16 b = none := by
  simp only [isSeparator, Bool.or_eq_true, beq_iff_eq] at h
  rcases h with rfl | rfl <;> decide

/-! ## Facts about decoding -/

def NoEscape (t : Text) : Prop :=
  ∀ hi lo rest h l, t = ch '%' :: hi :: lo :: rest → toDigit 16 hi = some h →
    toDigit 16 lo = some l → False

theorem decode_escape (hi lo : Byte) (rest : Text) (h l : Nat) (hh : toDigit 16 hi = some h)
    (hl : toDigit 16 lo = some l) :
    decode (ch '%' :: hi :: lo :: rest) = UInt8.ofNat (h * 16 + l) :: decode rest := by
  simp only [decode, if_true, hh, hl]

theorem decode_plain (b : Byte) (rest : Text) (h : NoEscape (b :: rest)) :
    decode (b :: rest) = b :: decode rest := by
  match rest with
  | [] => rfl
  | [_] => rfl
  | hi :: lo :: rest =>
    by_cases hb : b = ch '%'
    · subst hb
      cases hh : toDigit 16 hi with
      | none => simp only [decode, if_true, hh]
      | some m =>
        cases hl : toDigit 16 lo with
        | none => simp only [decode, if_true, hh, hl]
        | some n => exact (h hi lo rest m n rfl hh hl).elim
    · rw [decode, if_neg hb]

theorem noEscape_of_ne (b : Byte) (rest : Text) (h : b ≠ ch '%') : NoEscape (b :: rest) := by
  intro hi lo rest' m n heq
  exact absurd (List.cons.inj heq).1 h

theorem decode_induction {P : Text → Prop} (nil : P [])
    (escape : ∀ hi lo rest h l, toDigit 16 hi = some h → toDigit 16 lo = some l → P rest →
      P (ch '%' :: hi :: lo :: rest))
    (plain : ∀ b rest, NoEscape (b :: rest) → P rest → P (b :: rest)) (t : Text) : P t := by
  induction t using decode.induct with
  | case1 hi lo rest h l hl hh ih => exact escape hi lo rest h l hh hl ih
  | case2 hi lo rest hdigits ih =>
    refine plain _ _ ?_ ih
    rintro hi' lo' rest' h l ⟨rfl, rfl⟩ hh hl
    exact hdigits h l hh hl
  | case3 b hi lo rest hb ih => exact plain _ _ (noEscape_of_ne _ _ hb) ih
  | case4 b rest hshort ih =>
    refine plain _ _ ?_ ih
    intro hi lo rest' h l heq
    exact (hshort hi lo rest' (List.cons.inj heq).2).elim
  | case5 => exact nil

theorem noEscape_append_slash (b : Byte) (a t : Text) (h : NoEscape (b :: a)) :
    NoEscape (b :: a ++ ch '/' :: t) := by
  have hno : toDigit 16 (ch '/') = none := by decide
  intro hi lo rest m n heq hh hl
  match a with
  | [] =>
    obtain ⟨-, rfl, -⟩ : b = ch '%' ∧ ch '/' = hi ∧ t = lo :: rest := by simpa using heq
    simp [hno] at hh
  | [x] =>
    obtain ⟨-, -, rfl, -⟩ : b = ch '%' ∧ x = hi ∧ ch '/' = lo ∧ t = rest := by simpa using heq
    simp [hno] at hl
  | x :: y :: a =>
    obtain ⟨rfl, rfl, rfl, -⟩ : b = ch '%' ∧ x = hi ∧ y = lo ∧ a ++ ch '/' :: t = rest := by
      simpa using heq
    exact h x y a m n rfl hh hl

theorem decode_append_slash (a b : Text) :
    decode (a ++ ch '/' :: b) = decode a ++ ch '/' :: decode b := by
  induction a using decode_induction with
  | nil => exact decode_plain _ _ (noEscape_of_ne _ _ (by decide))
  | escape hi lo rest h l hh hl ih =>
    simp only [List.cons_append]
    rw [decode_escape _ _ _ _ _ hh hl, decode_escape _ _ _ _ _ hh hl, ih, List.cons_append]
  | plain c rest hno ih =>
    have hno' := noEscape_append_slash c rest b hno
    rw [List.cons_append] at hno' ⊢
    rw [decode_plain c rest hno, decode_plain _ _ hno', ih, List.cons_append]

theorem decode_intercalate (parts : List Text) :
    decode ([ch '/'].intercalate parts) = [ch '/'].intercalate (parts.map decode) := by
  induction parts with
  | nil => rfl
  | cons part parts ih =>
    match parts with
    | [] => simp
    | next :: parts =>
      rw [List.intercalate_cons_cons, List.append_assoc, List.singleton_append, decode_append_slash,
        ih, List.map_cons, List.map_cons, List.map_cons, List.intercalate_cons_cons]
      simp

theorem mem_decode (c : Byte) (s : Text) (hc : c ≠ ch '%') (hdigit : toDigit 16 c = none)
    (h : c ∈ s) : c ∈ decode s := by
  induction s using decode_induction with
  | nil => simp at h
  | escape hi lo rest m n hh hl ih =>
    rw [decode_escape _ _ _ _ _ hh hl]
    simp only [List.mem_cons] at h ⊢
    rcases h with rfl | rfl | rfl | h
    · exact absurd rfl hc
    · simp [hdigit] at hh
    · simp [hdigit] at hl
    · exact .inr (ih h)
  | plain b rest hno ih =>
    rw [decode_plain b rest hno]
    rcases List.mem_cons.mp h with rfl | h
    · exact List.mem_cons_self
    · exact List.mem_cons_of_mem _ (ih h)

theorem percentDecode_decode (s d : Text) (h : percentDecode s = .ok d) : decode s = d := by
  induction s using decode_induction generalizing d with
  | nil => exact Except.ok.inj h
  | escape hi lo rest m n hh hl ih =>
    unfold percentDecode at h
    rw [if_pos rfl] at h
    simp only [hh, hl, bind_eq_ok, pure_eq_ok] at h
    obtain ⟨d', hd', rfl⟩ := h
    rw [decode_escape _ _ _ _ _ hh hl, ih d' hd']
  | plain b rest hno ih =>
    have hb : b ≠ ch '%' := by
      rintro rfl
      rw [percentDecode.eq_def] at h
      simp only [if_true] at h
      split at h
      · rename_i hi lo rest
        cases hh : toDigit 16 hi <;> cases hl : toDigit 16 lo <;> simp [hh, hl] at h
        exact hno hi lo rest _ _ rfl hh hl
      · simp at h
    rw [percentDecode.eq_def] at h
    simp only [if_neg hb, bind_eq_ok, pure_eq_ok] at h
    obtain ⟨d', hd', rfl⟩ := h
    rw [decode_plain b rest hno, ih d' hd']

/-! ## Facts about dot segments -/

theorem toLower_eq (b : Byte) : (toLower b = ch '.' → b = ch '.') ∧ (toLower b = ch '%' → b = ch '%') ∧
    (toLower b = ch '2' → b = ch '2') ∧ (toLower b = ch 'e' → b = ch 'e' ∨ b = ch 'E') := by
  grind [toLower, isUpper, ch]

theorem spellsDot_iff (s : Text) :
    spellsDot s = true ↔ s = ascii "." ∨ s = ascii "%2e" ∨ s = ascii "%2E" := by
  constructor
  · intro h
    have hcases : lowercase s = [ch '.'] ∨ lowercase s = [ch '%', ch '2', ch 'e'] := by
      simpa [spellsDot, ascii, ch] using h
    rcases hcases with h | h
    · obtain ⟨b, rfl, hb⟩ := List.map_eq_singleton_iff.mp h
      exact .inl (congrArg (fun x => [x]) ((toLower_eq b).1 hb))
    · obtain ⟨b, s, rfl, hb, h⟩ := List.map_eq_cons_iff.mp h
      obtain ⟨c, s, rfl, hc, h⟩ := List.map_eq_cons_iff.mp h
      obtain ⟨d, rfl, hd⟩ := List.map_eq_singleton_iff.mp h
      rw [(toLower_eq b).2.1 hb, (toLower_eq c).2.2.1 hc]
      rcases (toLower_eq d).2.2.2 hd with rfl | rfl
      · exact .inr (.inl rfl)
      · exact .inr (.inr rfl)
  · rintro (rfl | rfl | rfl) <;> decide

theorem spellsDotDot_iff (s : Text) :
    spellsDotDot s = true ↔ ∃ a b, s = a ++ b ∧ spellsDot a = true ∧ spellsDot b = true := by
  constructor
  · intro h
    have hsplit : ∃ a b, lowercase s = a ++ b ∧ spellsDot a = true ∧ spellsDot b = true := by
      simp only [spellsDotDot, List.contains_eq_mem, List.map_cons, List.map_nil, List.mem_cons,
        List.not_mem_nil, or_false, decide_eq_true_eq] at h
      rcases h with h | h | h | h
      · exact ⟨ascii ".", ascii ".", h, by decide⟩
      · exact ⟨ascii ".", ascii "%2e", h, by decide⟩
      · exact ⟨ascii "%2e", ascii ".", h, by decide⟩
      · exact ⟨ascii "%2e", ascii "%2e", h, by decide⟩
    obtain ⟨a, b, hlower, ha, hb⟩ := hsplit
    obtain ⟨x, y, rfl, rfl, rfl⟩ := List.map_eq_append_iff.mp hlower
    have hspells : ∀ t, spellsDot (lowercase t) = spellsDot t := by
      intro t
      rw [spellsDot, lowercase_lowercase, spellsDot]
    rw [← lowercase, hspells] at ha hb
    exact ⟨x, y, rfl, ha, hb⟩
  · rintro ⟨a, b, rfl, ha, hb⟩
    rcases (spellsDot_iff a).mp ha with rfl | rfl | rfl <;>
      rcases (spellsDot_iff b).mp hb with rfl | rfl | rfl <;> decide

theorem decode_dot_append (s t : Text) (h : spellsDot s = true) :
    decode (s ++ t) = ch '.' :: decode t := by
  rcases (spellsDot_iff s).mp h with rfl | rfl | rfl
  · exact decode_plain _ _ (noEscape_of_ne _ _ (by decide))
  · exact decode_escape _ _ _ 2 14 (by decide) (by decide)
  · exact decode_escape _ _ _ 2 14 (by decide) (by decide)

theorem spellsDot_decode (s : Text) (h : spellsDot s = true) : decode s = ascii "." := by
  have := decode_dot_append s [] h
  rwa [List.append_nil] at this

theorem spellsDotDot_decode (s : Text) (h : spellsDotDot s = true) : decode s = ascii ".." := by
  obtain ⟨a, b, rfl, ha, hb⟩ := (spellsDotDot_iff s).mp h
  rw [decode_dot_append a b ha, spellsDot_decode b hb]
  rfl

theorem resolveDots_plain (dot dotDot : Text → Bool) (out segs : List Text)
    (h : ∀ s ∈ segs, dot s = false ∧ dotDot s = false) :
    resolveDots dot dotDot out segs = out ++ segs := by
  induction segs generalizing out with
  | nil => simp [resolveDots]
  | cons s segs ih =>
    simp only [List.mem_cons, forall_eq_or_imp] at h
    simp [resolveDots, resolveTurn, h.1.1, h.1.2, ih _ h.2]

theorem resolveBelowRoot_plain (dot dotDot : Text → Bool) (segs : List Text)
    (h : ∀ s ∈ segs, dot s = false ∧ dotDot s = false) :
    resolveBelowRoot dot dotDot segs = segs := by
  cases segs with
  | nil => rfl
  | cons root segs =>
    rw [resolveBelowRoot, resolveDots_plain _ _ _ _ fun s hs => h s (List.mem_cons_of_mem _ hs)]
    rfl

theorem reading_plain (sep : Byte → Bool) (hslash : sep (ch '/') = true)
    (hsep : ∀ b, isSeparator b = false → sep b = false) (segs : List Text) (hne : segs ≠ [])
    (h : ∀ s ∈ segs, PlainSegment s) :
    decodeThenResolve sep ([ch '/'].intercalate segs) = segs.map decode ∧
      resolveThenDecode sep ([ch '/'].intercalate segs) = segs.map decode := by
  constructor
  · have hsplit : ([ch '/'].intercalate (segs.map decode)).splitOnP sep = segs.map decode := by
      apply splitOnP_intercalate sep _ hslash _ (by simpa using hne)
      intro l hl b hb
      obtain ⟨s, hs, rfl⟩ := List.mem_map.mp hl
      exact hsep b ((h s hs).2.2 b hb)
    unfold decodeThenResolve
    rw [decode_intercalate, hsplit, resolveBelowRoot_plain]
    intro l hl
    obtain ⟨s, hs, rfl⟩ := List.mem_map.mp hl
    simp [isDot, isDotDot, (h s hs).1, (h s hs).2.1]
  · have hsplit : ([ch '/'].intercalate segs).splitOnP sep = segs := by
      apply splitOnP_intercalate sep _ hslash _ hne
      intro s hs b hb
      apply hsep
      by_contra hsepb
      rw [Bool.not_eq_false] at hsepb
      have hnot := separator_no_escape b hsepb
      rw [(h s hs).2.2 b (mem_decode b s hnot.1 hnot.2 hb)] at hsepb
      exact Bool.false_ne_true hsepb
    unfold resolveThenDecode
    rw [hsplit, resolveBelowRoot_plain]
    intro s hs
    constructor
    · exact Bool.eq_false_iff.mpr fun hdot => (h s hs).1 (spellsDot_decode s hdot)
    · exact Bool.eq_false_iff.mpr fun hdot => (h s hs).2.1 (spellsDotDot_decode s hdot)

end Capcurl.Spec
