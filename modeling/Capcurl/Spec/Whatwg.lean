import Capcurl.Policy.Grant
import Capcurl.Spec.Origin

/-!
# The path of an http URL

The path state of a URL parser that follows the WHATWG rules, and what is assumed of `Url::parse`.
`encodes` is the path percent-encode set.
-/

namespace Capcurl.Spec

open Lib Policy

section Path

variable (encodes : Byte → Bool)

def hexDigit (n : Nat) : Byte := if n < 10 then UInt8.ofNat (48 + n) else UInt8.ofNat (55 + n)

def encodeByte (b : Byte) : Text :=
  if encodes b then [ch '%', hexDigit (b.toNat / 16), hexDigit (b.toNat % 16)] else [b]

def encodeSegment (s : Text) : Text := s.flatMap (encodeByte encodes)

/-- A backslash separates as a slash does. What comes before the first separator is empty. -/
def pathSegments (path : Text) : List Text := (path.splitOnP isSeparator).tail

def normalizePath (path : Text) : Text :=
  ch '/' :: [ch '/'].intercalate
    ((resolveDots spellsDot spellsDotDot [] (pathSegments path)).map (encodeSegment encodes))

def IsHttp (url : Url) : Prop :=
  (url.scheme = ascii "http" ∨ url.scheme = ascii "https") ∧ url.host.isSome = true

/-- What is assumed of `Url::parse`: the path of a parsed URL is in normal form, and a URL put
together from the parts of a parsed one keeps its scheme and authority and gets its path
normalized. -/
structure Whatwg (parseUrl : Text → Option Url) : Prop where
  keeps : encodes (ch '\\') = false
  fixed : ∀ text base, parseUrl text = some base → IsHttp base →
    normalizePath encodes base.path = base.path
  assembled : ∀ text base, parseUrl text = some base → IsHttp base →
    ∀ rest query, rest.all isGraphic = true → ch '?' ∉ rest → ch '#' ∉ rest →
      (∀ q, query = some q → ch '#' ∉ q) →
      ∃ url, parseUrl (base.scheme ++ ascii "://" ++ base.authority ++ base.path ++ rest ++
          query.elim [] fun q => ascii "?" ++ q) = some url ∧
        url.scheme = base.scheme ∧ url.authority = base.authority ∧
        url.path = normalizePath encodes (base.path ++ rest)

/-! ## Dot segments in normal forms -/

/-- An empty segment weighs less than a named one, so taking a dot segment out, even the last,
leaves less. -/
def weight (segs : List Text) : Nat := (segs.map fun s => if s = [] then 1 else 2).sum

end Path

theorem weight_append (a b : List Text) : weight (a ++ b) = weight a + weight b := by
  simp [weight]

theorem weight_dropLast (a : List Text) : weight a.dropLast ≤ weight a := by
  rcases List.eq_nil_or_concat a with rfl | ⟨b, s, rfl⟩
  · simp
  · simp [weight_append]

theorem weight_encode (encodes : Byte → Bool) (segs : List Text) :
    weight (segs.map (encodeSegment encodes)) = weight segs := by
  have hnil : ∀ s, encodeSegment encodes s = [] ↔ s = [] := by
    intro s
    cases s with
    | nil => simp [encodeSegment]
    | cons b s =>
      simp only [encodeSegment, List.flatMap_cons, encodeByte]
      split <;> simp
  simp only [weight, List.map_map, Function.comp_def, hnil]

theorem weight_leave (last : Bool) (out : List Text) : weight (leave last out) ≤ weight out + 1 := by
  have hempty : weight ([[]] : List Text) = 1 := rfl
  cases last <;> simp [leave, weight_append, hempty]

theorem resolveTurn_weight (dot dotDot : Text → Bool) (hdot : dot [] = false)
    (hdotDot : dotDot [] = false) (out : List Text) (s : Text) (last : Bool) :
    weight (resolveTurn dot dotDot out s last) ≤ weight out + weight [s] ∧
      (weight (resolveTurn dot dotDot out s last) = weight out + weight [s] →
        dot s = false ∧ dotDot s = false) := by
  have hnamed : s ≠ [] → weight [s] = 2 := fun hs => by simp [weight, hs]
  unfold resolveTurn
  split
  · rename_i hdd
    have hs := hnamed fun he => by simp [he, hdotDot] at hdd
    have hleave := weight_leave last out.dropLast
    have hdrop := weight_dropLast out
    exact ⟨by omega, fun heq => by omega⟩
  · rename_i hdd
    split
    · rename_i hd
      have hs := hnamed fun he => by simp [he, hdot] at hd
      have hleave := weight_leave last out
      exact ⟨by omega, fun heq => by omega⟩
    · rename_i hd
      exact ⟨(weight_append out [s]).le, fun _ => ⟨by simpa using hd, by simpa using hdd⟩⟩

theorem resolveDots_weight (dot dotDot : Text → Bool) (hdot : dot [] = false)
    (hdotDot : dotDot [] = false) (out segs : List Text) :
    weight (resolveDots dot dotDot out segs) ≤ weight out + weight segs ∧
      (weight (resolveDots dot dotDot out segs) = weight out + weight segs →
        ∀ s ∈ segs, dot s = false ∧ dotDot s = false) := by
  induction segs generalizing out with
  | nil => simp [resolveDots, weight]
  | cons s segs ih =>
    have hcons : weight (s :: segs) = weight [s] + weight segs := weight_append [s] segs
    obtain ⟨hturn, hplain⟩ := resolveTurn_weight dot dotDot hdot hdotDot out s segs.isEmpty
    obtain ⟨hrest, hrestPlain⟩ := ih (resolveTurn dot dotDot out s segs.isEmpty)
    unfold resolveDots
    rw [hcons]
    refine ⟨by omega, fun heq => ?_⟩
    simp only [List.mem_cons, forall_eq_or_imp]
    exact ⟨hplain (by omega), hrestPlain (by omega)⟩

theorem mem_leave (last : Bool) (out : List Text) (s : Text) (h : s ∈ leave last out) :
    s ∈ out ∨ s = [] := by
  cases last with
  | false => exact .inl h
  | true => simpa [leave] using h

theorem mem_resolveTurn (dot dotDot : Text → Bool) (out : List Text) (first : Text) (last : Bool)
    (s : Text) (h : s ∈ resolveTurn dot dotDot out first last) : s ∈ out ∨ s = first ∨ s = [] := by
  unfold resolveTurn at h
  split at h
  · exact (mem_leave _ _ _ h).imp List.mem_of_mem_dropLast .inr
  · split at h
    · exact (mem_leave _ _ _ h).imp id .inr
    · exact (List.mem_append.mp h).imp id fun hs => .inl (List.mem_singleton.mp hs)

theorem mem_resolveDots (dot dotDot : Text → Bool) (out segs : List Text) (s : Text)
    (h : s ∈ resolveDots dot dotDot out segs) : s ∈ out ∨ s ∈ segs ∨ s = [] := by
  induction segs generalizing out with
  | nil => exact .inl h
  | cons first segs ih =>
    rcases ih _ h with hs | hs | hs
    · rcases mem_resolveTurn _ _ _ _ _ _ hs with hs | rfl | hs
      · exact .inl hs
      · exact .inr (.inl List.mem_cons_self)
      · exact .inr (.inr hs)
    · exact .inr (.inl (List.mem_cons_of_mem _ hs))
    · exact .inr (.inr hs)

theorem resolveDots_ne_nil (dot dotDot : Text → Bool) (out segs : List Text) (h : segs ≠ []) :
    resolveDots dot dotDot out segs ≠ [] := by
  induction segs generalizing out with
  | nil => exact absurd rfl h
  | cons s segs ih =>
    unfold resolveDots
    cases segs with
    | nil =>
      simp only [resolveDots, resolveTurn, leave, List.isEmpty_nil, if_true]
      split
      · simp
      · split <;> simp
    | cons next segs => exact ih _ (by simp)

/-! ## Normal forms -/

section Normal

variable {encodes : Byte → Bool}

theorem escape_pure (b : Byte) :
    ∀ c ∈ [ch '%', hexDigit (b.toNat / 16), hexDigit (b.toNat % 16)], isSeparator c = false := by
  have hdigit : ∀ n < 16, isSeparator (hexDigit n) = false := by decide
  have hlt := b.toNat_lt
  intro c hc
  simp only [List.mem_cons, List.not_mem_nil, or_false] at hc
  rcases hc with rfl | rfl | rfl
  · decide
  · exact hdigit _ (by omega)
  · exact hdigit _ (by omega)

theorem encodeSegment_pure (s : Text) (h : ∀ b ∈ s, isSeparator b = false) :
    ∀ b ∈ encodeSegment encodes s, isSeparator b = false := by
  intro c hc
  obtain ⟨b, hb, hc⟩ := List.mem_flatMap.mp hc
  unfold encodeByte at hc
  split at hc
  · exact escape_pure b c hc
  · rw [List.mem_singleton.mp hc]
    exact h b hb

variable (encodes) in
def normalSegments (path : Text) : List Text :=
  (resolveDots spellsDot spellsDotDot [] (pathSegments path)).map (encodeSegment encodes)

theorem normalizePath_eq (path : Text) :
    normalizePath encodes path = ch '/' :: [ch '/'].intercalate (normalSegments encodes path) := rfl

theorem normalSegments_pure (path : Text) :
    ∀ s ∈ normalSegments encodes path, ∀ b ∈ s, isSeparator b = false := by
  intro l hl
  obtain ⟨s, hs, rfl⟩ := List.mem_map.mp hl
  apply encodeSegment_pure
  rcases mem_resolveDots _ _ _ _ _ hs with hs | hs | rfl
  · simp at hs
  · exact splitOnP_pure isSeparator path s (List.mem_of_mem_tail hs)
  · simp

theorem normalizePath_no_backslash (path : Text) : ch '\\' ∉ normalizePath encodes path := by
  intro h
  rw [normalizePath_eq] at h
  rcases List.mem_cons.mp h with h | h
  · exact absurd h (by decide)
  · rcases mem_intercalate _ _ _ h with h | ⟨s, hs, hb⟩
    · exact absurd h (by decide)
    · exact absurd (normalSegments_pure path s hs _ hb) (by decide)

theorem pathSegments_slash (t : Text) : pathSegments (ch '/' :: t) = t.splitOnP isSeparator := by
  unfold pathSegments
  rw [List.splitOnP_cons_eq_if_modifyHead, if_pos (by decide)]
  rfl

theorem pathSegments_normalizePath (path : Text) (hne : pathSegments path ≠ []) :
    pathSegments (normalizePath encodes path) = normalSegments encodes path := by
  rw [normalizePath_eq, pathSegments_slash]
  apply splitOnP_intercalate _ _ (by decide)
  · simpa [normalSegments] using resolveDots_ne_nil spellsDot spellsDotDot [] _ hne
  · exact normalSegments_pure path

theorem fixed_plain (path : Text) (h : normalizePath encodes path = path) :
    ∀ s ∈ pathSegments path,
      (spellsDot s = false ∧ spellsDotDot s = false) ∧ encodeSegment encodes s = s := by
  have hne : pathSegments path ≠ [] := by
    rw [← h, normalizePath_eq, pathSegments_slash]
    exact List.splitOnP_ne_nil _ _
  have hnormal : pathSegments (normalizePath encodes path) = normalSegments encodes path :=
    pathSegments_normalizePath path hne
  rw [h] at hnormal
  have hweight := congrArg weight hnormal
  unfold normalSegments at hweight
  rw [weight_encode] at hweight
  have hplain := (resolveDots_weight spellsDot spellsDotDot (by decide) (by decide) []
    (pathSegments path)).2 (by rw [← hweight]; exact (Nat.zero_add _).symm)
  unfold normalSegments at hnormal
  rw [resolveDots_plain _ _ _ _ hplain, List.nil_append] at hnormal
  intro s hs
  refine ⟨hplain s hs, ?_⟩
  have hmap := List.map_eq_map_iff.mp (hnormal.symm.trans (List.map_id _).symm)
  exact hmap s hs

theorem splitOnP_separator (path : Text) (h : ch '\\' ∉ path) :
    path.splitOnP isSeparator = segments path := by
  apply splitOnP_congr
  intro b hb
  have : (b == ch '\\') = false := by
    rw [beq_eq_false_iff_ne]
    rintro rfl
    exact h hb
  simp [isSeparator, this]

theorem normalizePath_join (base path : Text) (hfixed : normalizePath encodes base = base)
    (hdir : base.getLast? = some (ch '/')) (hback : ch '\\' ∉ path)
    (hplain : ∀ s ∈ segments path, spellsDot s = false ∧ spellsDotDot s = false) :
    normalizePath encodes (base ++ path) =
      base ++ [ch '/'].intercalate ((segments path).map (encodeSegment encodes)) := by
  have hbase : base = base.dropLast ++ ch '/' :: [] := (List.dropLast_append_getLast? _ hdir).symm
  have hsame := splitOnP_separator path hback
  -- The named segments of the base, without the empty one that its last slash opens.
  obtain ⟨named, hnamed⟩ : ∃ named, ∀ t, pathSegments (base.dropLast ++ ch '/' :: t) =
      named ++ t.splitOnP isSeparator := by
    refine ⟨(base.dropLast.splitOnP isSeparator).tail, fun t => ?_⟩
    rw [pathSegments, List.splitOnP_append_cons _ _ (by decide),
      List.tail_append_of_ne_nil (List.splitOnP_ne_nil _ _)]
  have hbaseSegs : pathSegments base = named ++ [[]] := by
    rw [hbase, hnamed]
    rfl
  have hbasePlain := fixed_plain base hfixed
  rw [hbaseSegs] at hbasePlain
  have hmap : named.map (encodeSegment encodes) = named := by
    conv_rhs => rw [← List.map_id named]
    exact List.map_congr_left fun s hs => (hbasePlain s (by simp [hs])).2
  have hresolve : ∀ segs : List Text, (∀ s ∈ segs, spellsDot s = false ∧ spellsDotDot s = false) →
      resolveDots spellsDot spellsDotDot [] (named ++ segs) = named ++ segs := by
    intro segs hsegs
    rw [resolveDots_plain, List.nil_append]
    intro s hs
    rcases List.mem_append.mp hs with hs | hs
    · exact (hbasePlain s (by simp [hs])).1
    · exact hsegs s hs
  have hbelow : base = ch '/' :: named.flatMap (· ++ [ch '/']) := by
    conv_lhs => rw [← hfixed, normalizePath_eq, normalSegments, hbaseSegs, hresolve _ (by decide),
      List.map_append, hmap, intercalate_append _ _ _ (by simp)]
    simp [encodeSegment]
  have hjoin : pathSegments (base ++ path) = named ++ segments path := by
    rw [hbase, List.append_assoc]
    exact (hnamed path).trans (by rw [hsame])
  rw [normalizePath_eq, normalSegments, hjoin, hresolve _ hplain, List.map_append, hmap,
    intercalate_append _ _ _ (by simp [segments])]
  conv_rhs => rw [hbelow]
  rfl

theorem resolveTurn_plain (dot dotDot : Text → Bool) (hnil : dot [] = false ∧ dotDot [] = false)
    (out : List Text) (s : Text) (last : Bool)
    (hout : ∀ x ∈ out, dot x = false ∧ dotDot x = false) :
    ∀ x ∈ resolveTurn dot dotDot out s last, dot x = false ∧ dotDot x = false := by
  intro x hx
  unfold resolveTurn at hx
  split at hx
  · rcases mem_leave _ _ _ hx with hx | rfl
    · exact hout x (List.mem_of_mem_dropLast hx)
    · exact hnil
  · rename_i hdd
    split at hx
    · rcases mem_leave _ _ _ hx with hx | rfl
      · exact hout x hx
      · exact hnil
    · rename_i hd
      rcases List.mem_append.mp hx with hx | hx
      · exact hout x hx
      · rw [List.mem_singleton.mp hx]
        exact ⟨by simpa using hd, by simpa using hdd⟩

theorem resolveDots_out_plain (dot dotDot : Text → Bool) (hnil : dot [] = false ∧ dotDot [] = false)
    (out segs : List Text) (hout : ∀ x ∈ out, dot x = false ∧ dotDot x = false) :
    ∀ x ∈ resolveDots dot dotDot out segs, dot x = false ∧ dotDot x = false := by
  induction segs generalizing out with
  | nil => exact hout
  | cons s segs ih => exact ih _ (resolveTurn_plain dot dotDot hnil out s _ hout)

theorem normalizePath_fixed (hagain : ∀ b, encodeSegment encodes (encodeByte encodes b) =
      encodeByte encodes b)
    (hdot : ∀ s, spellsDot (encodeSegment encodes s) = true → spellsDot s = true)
    (hdotDot : ∀ s, spellsDotDot (encodeSegment encodes s) = true → spellsDotDot s = true)
    (path : Text) (hne : pathSegments path ≠ []) :
    normalizePath encodes (normalizePath encodes path) = normalizePath encodes path := by
  have hencode : ∀ s, encodeSegment encodes (encodeSegment encodes s) = encodeSegment encodes s := by
    intro s
    simp only [encodeSegment, List.flatMap_assoc]
    exact congrArg (fun f => s.flatMap f) (funext hagain)
  have hplain : ∀ s ∈ normalSegments encodes path, spellsDot s = false ∧ spellsDotDot s = false := by
    intro l hl
    obtain ⟨s, hs, rfl⟩ := List.mem_map.mp hl
    obtain ⟨h1, h2⟩ := resolveDots_out_plain spellsDot spellsDotDot (by decide) [] _ (by simp) s hs
    exact ⟨Bool.eq_false_iff.mpr fun h => by simp [hdot s h] at h1,
      Bool.eq_false_iff.mpr fun h => by simp [hdotDot s h] at h2⟩
  rw [normalizePath_eq (normalizePath encodes path), normalSegments, pathSegments_normalizePath _ hne,
    resolveDots_plain _ _ _ _ hplain, List.nil_append, normalizePath_eq path, normalSegments,
    List.map_map]
  congr 2
  exact List.map_congr_left fun s _ => hencode s

end Normal

end Capcurl.Spec
