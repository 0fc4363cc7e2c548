import Capcurl.Spec.Whatwg
import Capcurl.Target

/-! # What is validated is what is fetched

The grant splits a path at slashes, a URL parser at backslashes too. A backslash that the grant lets
through, as it does once encoded separators are allowed, is where they part.
-/

namespace Capcurl.Join

open Lib Policy Spec Target

/-! ## The base of a grant -/

theorem built_base (parseUrl : Text → Option Url) (grant : Grant) (h : grant.Built parseUrl) :
    (∃ text, parseUrl text = some grant.base) ∧ IsHttp grant.base := by
  induction h with
  | @new text grant h =>
    rw [Grant.new.eq_def] at h
    split at h
    · simp at h
    · rename_i base hparse
      simp only [throw_bind_else_eq_ok, pure_eq_ok, not_not, Option.isNone_iff_eq_none] at h
      obtain ⟨hscheme, hhost, -, -, -, rfl⟩ := h
      exact ⟨⟨text, hparse⟩, hscheme, Option.isSome_iff_ne_none.mpr hhost⟩
  | methods _ _ ih => exact ih
  | injection _ _ ih => exact ih
  | headerPolicy _ _ ih => exact ih
  | fixedRequest _ _ ih => exact ih
  | queryAllowed _ _ ih => exact ih
  | encodedSeparators _ _ ih => exact ih
  | bodyLimits _ _ _ ih => exact ih

theorem prefixed_slash (grant : Grant) (h : grant.scope = .prefixed) :
    grant.base.path.getLast? = some (ch '/') := by
  have hscope := grant.scope_eq
  rw [h, Scope.ofPath] at hscope
  split at hscope
  · assumption
  · cases hscope

/-! ## Joining -/

theorem join_parsed (encodes : Byte → Bool) (parseUrl : Text → Option Url)
    (hurl : Whatwg encodes parseUrl) (grant : Grant) (hbuilt : grant.Built parseUrl)
    (allow : Bool) (target : Text) (n : NormalizedTarget) (haccepted : Accepted allow target n) :
    ∃ url, url.path = normalizePath encodes (grant.base.path ++ n.path) ∧
      grant.join parseUrl n = if grant.base.path.isPrefixOf url.path then .ok url else .error .escape := by
  obtain ⟨⟨text, hparse⟩, hhttp⟩ := built_base parseUrl grant hbuilt
  have hparts := haccepted.parts
  have hgraphic : n.path.all isGraphic = true := by
    have := haccepted.graphic
    rw [hparts, List.all_append, List.all_cons] at this
    simp only [Bool.and_eq_true] at this
    exact this.1.2
  have hhash : ch '#' ∉ n.path := fun h => haccepted.noFragment (by simp [hparts, h])
  have hquery : ∀ q, n.query = some q → ch '#' ∉ q := by
    intro q hq h
    exact haccepted.noFragment (by simp [hparts, hq, h])
  obtain ⟨url, hjoined, hscheme, hauthority, hpath⟩ :=
    hurl.assembled text grant.base hparse hhttp n.path n.query hgraphic haccepted.noQueryMark hhash
      hquery
  refine ⟨url, hpath, ?_⟩
  unfold Grant.join
  cases hq : n.query <;> rw [hq] at hjoined <;>
    simp only [Option.elim_none, Option.elim_some] at hjoined <;>
    simp only [hjoined, hscheme, hauthority, ne_eq, not_true_eq_false, false_or, Bool.not_eq_true'] <;>
    cases grant.base.path.isPrefixOf url.path <;> rfl

theorem join_ok_iff (parseUrl : Text → Option Url) (grant : Grant) (n : NormalizedTarget) (url : Url) :
    grant.join parseUrl n = .ok url ↔
      parseUrl (grant.base.scheme ++ ascii "://" ++ grant.base.authority ++ grant.base.path ++ n.path ++
          n.query.elim [] fun q => ascii "?" ++ q) = some url ∧
        url.scheme = grant.base.scheme ∧ url.authority = grant.base.authority ∧
        grant.base.path <+: url.path := by
  have hquery : grant.join parseUrl n =
      (parseUrl (grant.base.scheme ++ ascii "://" ++ grant.base.authority ++ grant.base.path ++
          n.path ++ n.query.elim [] fun q => ascii "?" ++ q)).elim (throw .escape) fun url =>
        if url.scheme ≠ grant.base.scheme ∨ url.authority ≠ grant.base.authority ∨
            !grant.base.path.isPrefixOf url.path then throw .escape
        else return url := by
    unfold Grant.join
    cases n.query with
    | none | some query =>
      simp only [Option.elim_none, Option.elim_some]
      cases parseUrl _ <;> rfl
  rw [hquery]
  cases parseUrl _ with
  | none => simp
  | some parsed =>
    simp only [Option.elim_some, throw_else_eq_ok, pure_eq_ok, not_or, ne_eq, not_not, Bool.not_eq_true',
      Bool.not_eq_false, List.isPrefixOf_iff_prefix, Option.some.injEq]
    constructor
    · rintro ⟨hsame, rfl⟩
      exact ⟨rfl, hsame⟩
    · rintro ⟨rfl, hsame⟩
      exact ⟨hsame, rfl⟩

def encodePath (encodes : Byte → Bool) (path : Text) : Text :=
  [ch '/'].intercalate ((segments path).map (encodeSegment encodes))

theorem backslash_encodePath (encodes : Byte → Bool) (hkeeps : encodes (ch '\\') = false) (path : Text)
    (h : ch '\\' ∈ path) : ch '\\' ∈ encodePath encodes path := by
  have hin : ch '\\' ∈ [ch '/'].intercalate (segments path) := by
    rwa [segments, List.intercalate_splitOn]
  obtain ⟨s, hs, hbs⟩ := (mem_intercalate _ _ _ hin).resolve_left (by decide)
  have hkept : ch '\\' ∈ encodeSegment encodes s :=
    List.mem_flatMap.mpr ⟨_, hbs, by simp [encodeByte, hkeeps]⟩
  exact mem_intercalate_of_mem _ _ _ _ (List.mem_map_of_mem hs) hkept

theorem segments_encodePath (encodes : Byte → Bool) (path : Text) (hback : ch '\\' ∉ path) :
    segments (encodePath encodes path) = (segments path).map (encodeSegment encodes) := by
  apply List.splitOn_intercalate
  · intro l hl hslash
    obtain ⟨s, hs, rfl⟩ := List.mem_map.mp hl
    rw [← splitOnP_separator _ hback] at hs
    exact absurd (encodeSegment_pure s (splitOnP_pure _ _ s hs) _ hslash) (by decide)
  · simp [segments]

theorem parsed_path (encodes : Byte → Bool) (parseUrl : Text → Option Url)
    (hurl : Whatwg encodes parseUrl) (grant : Grant) (hbuilt : grant.Built parseUrl) (allow : Bool)
    (target : Text) (n : NormalizedTarget) (haccepted : Accepted allow target n)
    (hexact : grant.scope = .exact → n.path = []) (hback : ch '\\' ∉ n.path) :
    normalizePath encodes (grant.base.path ++ n.path) = grant.base.path ++ encodePath encodes n.path := by
  obtain ⟨⟨text, hparse⟩, hhttp⟩ := built_base parseUrl grant hbuilt
  have hfixed := hurl.fixed text grant.base hparse hhttp
  cases hscope : grant.scope with
  | exact =>
    have hempty : encodePath encodes [] = [] := by simp [encodePath, segments, encodeSegment]
    rw [hexact hscope, hempty, List.append_nil, hfixed]
  | prefixed =>
    apply normalizePath_join grant.base.path n.path hfixed (prefixed_slash grant hscope) hback
    intro s hs
    obtain ⟨d, hd, hdot, hdotDot, -⟩ := haccepted.good s hs
    have hdecode := percentDecode_decode s d hd
    constructor
    · exact Bool.eq_false_iff.mpr fun h => hdot (hdecode ▸ spellsDot_decode s h)
    · exact Bool.eq_false_iff.mpr fun h => hdotDot (hdecode ▸ spellsDotDot_decode s h)

theorem join_spelled (encodes : Byte → Bool) (parseUrl : Text → Option Url)
    (hurl : Whatwg encodes parseUrl) (grant : Grant) (hbuilt : grant.Built parseUrl) (allow : Bool)
    (target : Text) (n : NormalizedTarget) (haccepted : normalizeTarget target allow = .ok n)
    (hexact : grant.scope = .exact → n.path = []) :
    (∃ url, grant.join parseUrl n = .ok url ∧
      url.path = grant.base.path ++ encodePath encodes n.path) ↔ ch '\\' ∉ n.path := by
  have hgood := normalizeTarget_accepted _ _ _ haccepted
  obtain ⟨url, hpath, hjoin⟩ := join_parsed encodes parseUrl hurl grant hbuilt _ target n hgood
  constructor
  · rintro ⟨url', hok, hspelled⟩ hback
    -- The backslash would have to stand in a parsed path, which has none.
    have hurl' : url' = url := by
      rw [hjoin] at hok
      split at hok
      · exact (Except.ok.inj hok).symm
      · cases hok
    subst hurl'
    have hsub : ch '\\' ∈ url'.path := by
      rw [hspelled]
      exact List.mem_append_right _ (backslash_encodePath encodes hurl.keeps _ hback)
    rw [hpath] at hsub
    exact normalizePath_no_backslash _ hsub
  · intro hback
    have hspelled := parsed_path encodes parseUrl hurl grant hbuilt _ target n hgood hexact hback
    rw [← hpath] at hspelled
    have hbelow : grant.base.path.isPrefixOf url.path = true := by
      rw [hspelled, List.isPrefixOf_iff_prefix]
      exact List.prefix_append _ _
    rw [hbelow, if_pos rfl] at hjoin
    exact ⟨url, hjoin, hspelled⟩

/-- **What is validated is what is fetched, backslashes aside.** Below a prefix, an accepted target
is fetched at the base's segments followed one for one by its own, each encoded byte by byte, exactly
when it has no backslash. -/
theorem validated_is_fetched (encodes : Byte → Bool) (parseUrl : Text → Option Url)
    (hurl : Whatwg encodes parseUrl) (grant : Grant) (hbuilt : grant.Built parseUrl)
    (hscope : grant.scope = .prefixed) (target : Text) (n : NormalizedTarget)
    (haccepted : normalizeTarget target grant.allowEncodedSeparators = .ok n) :
    (∃ url, grant.join parseUrl n = .ok url ∧
      segments url.path =
        segments grant.base.path.dropLast ++ (segments n.path).map (encodeSegment encodes)) ↔
    ch '\\' ∉ n.path := by
  have hprefixed : grant.scope = .exact → n.path = [] := fun h => by rw [hscope] at h; cases h
  have hspelled := join_spelled encodes parseUrl hurl grant hbuilt _ target n haccepted hprefixed
  have hbase := List.dropLast_append_getLast? _ (prefixed_slash grant hscope)
  constructor
  · rintro ⟨url, hjoin, hsegs⟩
    refine hspelled.mp ⟨url, hjoin, ?_⟩
    have hpieces : (segments n.path).map (encodeSegment encodes) ≠ [] := by simp [segments]
    calc url.path = [ch '/'].intercalate (segments url.path) := (List.intercalate_splitOn (ch '/')).symm
      _ = (segments grant.base.path.dropLast).flatMap (· ++ [ch '/']) ++ encodePath encodes n.path := by
        rw [hsegs, intercalate_append _ _ _ hpieces, encodePath]
      _ = grant.base.path ++ encodePath encodes n.path := by rw [segments_flatMap, hbase]
  · intro hback
    obtain ⟨url, hjoin, hpath⟩ := hspelled.mpr hback
    refine ⟨url, hjoin, ?_⟩
    conv_lhs => rw [hpath, ← hbase, List.append_assoc, List.singleton_append]
    exact (List.splitOn_append_cons_self _ _).trans (congrArg _ (segments_encodePath encodes _ hback))

/-! ## A parser for the URLs of one host -/

def pathSet (b : Byte) : Bool := b < 0x21 || 0x7e < b || (ascii "\"#<>?`\x7b\x7d").contains b

def cut (sep : Byte) (t : Text) : Text × Option Text :=
  match splitOnce sep t with
  | some (before, after) => (before, some after)
  | none => (t, none)

def parseAtHost (text : Text) : Option Url :=
  if (ascii "http://h/").isPrefixOf text then
    some
      { scheme := ascii "http"
        username := []
        password := none
        host := some (ascii "h")
        authority := ascii "h"
        path := normalizePath pathSet (cut (ch '?') (cut (ch '#') (text.drop 8)).1).1
        query := (cut (ch '?') (cut (ch '#') (text.drop 8)).1).2
        fragment := (cut (ch '#') (text.drop 8)).2 }
  else none

theorem cut_none (sep : Byte) (t : Text) (h : sep ∉ t) : cut sep t = (t, none) := by
  unfold cut
  rw [(splitOnce_eq_none_iff sep t).mpr h]

theorem cut_some (sep : Byte) (a b : Text) (h : sep ∉ a) : cut sep (a ++ sep :: b) = (a, some b) := by
  unfold cut
  rw [splitOnce_append sep a b h]

theorem cut_head (sep c : Byte) (t : Text) (h : c ≠ sep) : ∃ t', (cut sep (c :: t)).1 = c :: t' := by
  unfold cut
  split
  · rename_i a b hsplit
    obtain ⟨heq, -⟩ := (splitOnce_eq_some_iff _ _ _ _).mp hsplit
    cases a with
    | nil => exact absurd (List.cons.inj heq).1 h
    | cons d a => exact ⟨a, by rw [(List.cons.inj heq).1]⟩
  · exact ⟨t, rfl⟩

theorem pathSet_hexDigit : ∀ n < 16, pathSet (hexDigit n) = false := by decide

theorem pathSet_encoded (b c : Byte) (h : c ∈ encodeByte pathSet b) : pathSet c = false := by
  unfold encodeByte at h
  split at h
  · have hlt := b.toNat_lt
    simp only [List.mem_cons, List.not_mem_nil, or_false] at h
    rcases h with rfl | rfl | rfl
    · decide
    · exact pathSet_hexDigit _ (by omega)
    · exact pathSet_hexDigit _ (by omega)
  · rename_i hb
    rw [List.mem_singleton.mp h]
    simpa using hb

theorem pathSet_again (b : Byte) : encodeSegment pathSet (encodeByte pathSet b) = encodeByte pathSet b := by
  have hsame : ∀ t : Text, (∀ c ∈ t, pathSet c = false) → encodeSegment pathSet t = t := by
    intro t ht
    induction t with
    | nil => rfl
    | cons c t ih =>
      unfold encodeSegment
      rw [List.flatMap_cons, encodeByte, ht c (by simp), if_neg Bool.false_ne_true]
      exact congrArg (c :: ·) (ih fun d hd => ht d (List.mem_cons_of_mem _ hd))
  exact hsame _ (pathSet_encoded b)

theorem pathSet_no_mark (b : Byte) : ch '?' ∉ encodeByte pathSet b ∧ ch '#' ∉ encodeByte pathSet b := by
  constructor <;>
  · intro h
    exact absurd (pathSet_encoded b _ h) (by decide)

theorem encodeSegment_inv (s t : Text) (h : encodeSegment pathSet s = t)
    (hno : ∀ b, pathSet b = true → ¬ encodeByte pathSet b <:+: t) : s = t := by
  subst h
  induction s with
  | nil => rfl
  | cons b s ih =>
    unfold encodeSegment at hno ⊢
    rw [List.flatMap_cons] at hno ⊢
    have hb : pathSet b = false := by
      rw [← Bool.not_eq_true]
      exact fun hb => hno b hb (List.prefix_append _ _).isInfix
    have hs := ih fun c hc hpart => hno c hc (hpart.trans (List.suffix_append _ _).isInfix)
    unfold encodeByte
    rw [hb, if_neg Bool.false_ne_true, List.singleton_append, List.cons.injEq]
    exact ⟨rfl, hs⟩

def dots : List Text := ["." , "%2e", "%2E"].map ascii

theorem pathSet_dots : ∀ b : Byte, pathSet b = true →
    ∀ t ∈ dots ++ dots.flatMap fun a => dots.map (a ++ ·), ¬ encodeByte pathSet b <:+: t :=
  forall_byte (by decide +kernel)

theorem dots_iff (s : Text) : spellsDot s = true ↔ s ∈ dots := by
  simp [spellsDot_iff, dots]

theorem pathSet_dot (s : Text) (h : spellsDot (encodeSegment pathSet s) = true) :
    spellsDot s = true := by
  have hsame : s = encodeSegment pathSet s := by
    apply encodeSegment_inv s _ rfl
    exact fun b hb => pathSet_dots b hb _ (List.mem_append_left _ ((dots_iff _).mp h))
  rwa [hsame]

theorem pathSet_dotDot (s : Text) (h : spellsDotDot (encodeSegment pathSet s) = true) :
    spellsDotDot s = true := by
  have hsame : s = encodeSegment pathSet s := by
    apply encodeSegment_inv s _ rfl
    obtain ⟨a, c, hac, ha, hc⟩ := (spellsDotDot_iff _).mp h
    have hmem : a ++ c ∈ dots.flatMap fun a => dots.map (a ++ ·) :=
      List.mem_flatMap.mpr ⟨a, (dots_iff a).mp ha, List.mem_map_of_mem ((dots_iff c).mp hc)⟩
    rw [hac]
    exact fun b hb => pathSet_dots b hb _ (List.mem_append_right _ hmem)
  rwa [hsame]

theorem normalizePath_no_mark (path : Text) :
    ch '?' ∉ normalizePath pathSet path ∧ ch '#' ∉ normalizePath pathSet path := by
  have key : ∀ c, c ≠ ch '/' → (∀ b, c ∉ encodeByte pathSet b) → c ∉ normalizePath pathSet path := by
    intro c hc hno h
    rcases List.mem_cons.mp h with h | h
    · exact hc h
    · obtain ⟨l, hl, hcl⟩ := (mem_intercalate _ _ _ h).resolve_left hc
      obtain ⟨s, -, rfl⟩ := List.mem_map.mp hl
      obtain ⟨b, -, hb⟩ := List.mem_flatMap.mp hcl
      exact hno b hb
  exact ⟨key _ (by decide) fun b => (pathSet_no_mark b).1,
    key _ (by decide) fun b => (pathSet_no_mark b).2⟩

theorem parseAtHost_path (text : Text) (url : Url) (h : parseAtHost text = some url) :
    url.scheme = ascii "http" ∧ url.authority = ascii "h" ∧
      ∃ path, url.path = normalizePath pathSet (ch '/' :: path) := by
  unfold parseAtHost at h
  split at h
  · rename_i hbelow
    obtain ⟨rest, rfl⟩ := List.isPrefixOf_iff_prefix.mp hbelow
    obtain ⟨t, ht⟩ := cut_head (ch '#') (ch '/') rest (by decide)
    obtain ⟨path, hpath⟩ := cut_head (ch '?') (ch '/') t (by decide)
    have hdrop : (ascii "http://h/" ++ rest).drop 8 = ch '/' :: rest := rfl
    rw [← Option.some.inj h, hdrop]
    exact ⟨rfl, rfl, path, by rw [ht, hpath]⟩
  · simp at h

theorem parseAtHost_parts (path : Text) (query : Option Text) (hmark : ch '?' ∉ ch '/' :: path)
    (hhash : ch '#' ∉ ch '/' :: path) (hquery : ∀ q, query = some q → ch '#' ∉ q) :
    ∃ url, parseAtHost (ascii "http://h" ++ (ch '/' :: path) ++
        query.elim [] fun q => ascii "?" ++ q) = some url ∧
      url.scheme = ascii "http" ∧ url.authority = ascii "h" ∧
      url.path = normalizePath pathSet (ch '/' :: path) := by
  have hrest : ch '#' ∉ ch '/' :: path ++ query.elim [] fun q => ascii "?" ++ q := by
    rw [List.mem_append, not_or]
    refine ⟨hhash, ?_⟩
    cases query with
    | none => simp
    | some q =>
      rw [Option.elim_some, List.mem_append, not_or]
      exact ⟨by decide, hquery q rfl⟩
  have hcut : (cut (ch '?') (ch '/' :: path ++ query.elim [] fun q => ascii "?" ++ q)).1 =
      ch '/' :: path := by
    cases query with
    | none => rw [Option.elim_none, List.append_nil, cut_none _ _ hmark]
    | some q => exact congrArg Prod.fst (cut_some (ch '?') (ch '/' :: path) q hmark)
  refine ⟨_, if_pos ?_, rfl, rfl, ?_⟩
  · rw [List.isPrefixOf_iff_prefix]
    exact ⟨path ++ query.elim [] fun q => ascii "?" ++ q, by simp [ascii, ch]⟩
  · have hdrop : (ascii "http://h" ++ (ch '/' :: path) ++ query.elim [] fun q => ascii "?" ++ q).drop 8 =
        ch '/' :: path ++ query.elim [] fun q => ascii "?" ++ q := rfl
    rw [hdrop, cut_none _ _ hrest, hcut]

theorem parseAtHost_whatwg : Whatwg pathSet parseAtHost where
  keeps := by decide
  fixed := by
    intro text base h _
    obtain ⟨-, -, path, hpath⟩ := parseAtHost_path text base h
    rw [hpath]
    apply normalizePath_fixed pathSet_again pathSet_dot pathSet_dotDot
    rw [pathSegments_slash]
    exact List.splitOnP_ne_nil _ _
  assembled := by
    intro text base h _ rest query _ hmark hhash hquery
    obtain ⟨hscheme, hauthority, path, hpath⟩ := parseAtHost_path text base h
    obtain ⟨hmark', hhash'⟩ := normalizePath_no_mark (ch '/' :: path)
    rw [← hpath] at hmark' hhash'
    obtain ⟨tail, htail⟩ : ∃ tail, base.path = ch '/' :: tail := ⟨_, hpath.trans (normalizePath_eq _)⟩
    rw [htail] at hmark' hhash' ⊢
    rw [hscheme, hauthority]
    have hparts := parseAtHost_parts (tail ++ rest) query
      (by rw [← List.cons_append, List.mem_append, not_or]; exact ⟨hmark', hmark⟩)
      (by rw [← List.cons_append, List.mem_append, not_or]; exact ⟨hhash', hhash⟩) hquery
    simpa [ascii] using hparts

/-! ## A grant below that host -/

def grantBelow : Grant where
  base := {
    scheme := ascii "http"
    username := []
    password := none
    host := some (ascii "h")
    authority := ascii "h"
    path := ascii "/a/"
    query := none
    fragment := none }
  scope := .prefixed
  methods := .safeDefault
  injections := []
  headers := .allExceptDenied
  fixed := none
  allowQuery := true
  allowEncodedSeparators := true
  maxRequestBody := defaultMaxBody
  maxResponseBody := defaultMaxBody
  scope_eq := by decide

theorem grantBelow_built : grantBelow.Built parseAtHost := by
  have hparse : parseAtHost (ascii "http://h/a/") = some grantBelow.base := by decide +kernel
  have hnew : ∃ grant, Grant.new parseAtHost (ascii "http://h/a/") = .ok grant ∧
      grant.withEncodedSeparatorsAllowed true = grantBelow := by
    rw [Grant.new.eq_def, hparse]
    exact ⟨_, rfl, rfl⟩
  obtain ⟨grant, hnew, heq⟩ := hnew
  rw [← heq]
  exact .encodedSeparators true (.new hnew)

theorem validated_is_fetched_escaped :
    ∃ url, grantBelow.join parseAtHost ⟨ascii "b%2fc/\"", none⟩ = .ok url ∧
      segments url.path = [[], ascii "a", ascii "b%2fc", ascii "%22"] := by
  have heval : normalizeTarget (ascii "/b%2fc/\"") true = .ok ⟨ascii "b%2fc/\"", none⟩ ∧
      (segments grantBelow.base.path).dropLast ++
          (segments (ascii "b%2fc/\"")).map (encodeSegment pathSet) =
        [[], ascii "a", ascii "b%2fc", ascii "%22"] := by
    decide +kernel
  obtain ⟨url, hjoin, hsegs⟩ := (validated_is_fetched pathSet parseAtHost parseAtHost_whatwg grantBelow
    grantBelow_built rfl (ascii "/b%2fc/\"") ⟨ascii "b%2fc/\"", none⟩ heval.1).mpr (by decide)
  exact ⟨url, hjoin, hsegs.trans heval.2⟩

/-- With backslashes, a target that was accepted is out of the prefix when it is parsed. -/
theorem backslash_escapes :
    Whatwg pathSet parseAtHost ∧ grantBelow.Built parseAtHost ∧ grantBelow.scope = .prefixed ∧
      normalizeTarget (ascii "/x\\..\\..\\y") grantBelow.allowEncodedSeparators =
        .ok ⟨ascii "x\\..\\..\\y", none⟩ ∧
      grantBelow.join parseAtHost ⟨ascii "x\\..\\..\\y", none⟩ = .error .escape :=
  ⟨parseAtHost_whatwg, grantBelow_built, rfl, by decide +kernel⟩

end Capcurl.Join
