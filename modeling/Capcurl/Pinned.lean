import Capcurl.Join
import Capcurl.Lib.Runs
import Capcurl.Resolve

/-! # Pinned endpoints -/

namespace Capcurl.Pinned

open Lib Policy Capcurl.Core Spec Resolve Join

/-! ## Builder calls -/

inductive BuilderCall where
  | methods (methods : MethodSet)
  | injection (injection : Injection)
  | headerPolicy (policy : HeaderPolicy)
  | fixedRequest (fixed : FixedRequest)
  | queryAllowed (allow : Bool)
  | encodedSeparators (allow : Bool)
  | bodyLimits (request response : UInt64)

def applyCall (grant : Grant) : BuilderCall → Grant
  | .methods methods => grant.withMethods methods
  | .injection injection => grant.withInjection injection
  | .headerPolicy policy => grant.withHeaderPolicy policy
  | .fixedRequest fixed => grant.withFixedRequest fixed
  | .queryAllowed allow => grant.withQueryAllowed allow
  | .encodedSeparators allow => grant.withEncodedSeparatorsAllowed allow
  | .bodyLimits request response => grant.withBodyLimits request response

def build (grant : Grant) (calls : List BuilderCall) : Grant := calls.foldl applyCall grant

theorem build_snoc (grant : Grant) (calls : List BuilderCall) (c : BuilderCall) :
    build grant (calls ++ [c]) = applyCall (build grant calls) c :=
  foldl_snoc applyCall grant calls c

/-- The sequences of builder calls make the grants that a program can hold. -/
theorem built_iff (parseUrl : Text → Option Url) (grant : Grant) :
    grant.Built parseUrl ↔
      ∃ base fresh calls, Grant.new parseUrl base = .ok fresh ∧ grant = build fresh calls := by
  constructor
  · intro h
    have hcall : ∀ (grant : Grant) (c : BuilderCall),
        (∃ base fresh calls, Grant.new parseUrl base = .ok fresh ∧ grant = build fresh calls) →
        ∃ base fresh calls, Grant.new parseUrl base = .ok fresh ∧
          applyCall grant c = build fresh calls := by
      rintro _ c ⟨base, fresh, calls, hnew, rfl⟩
      exact ⟨base, fresh, calls ++ [c], hnew, (build_snoc fresh calls c).symm⟩
    induction h with
    | @new base grant h => exact ⟨base, grant, [], h, rfl⟩
    | methods m _ ih => exact hcall _ (.methods m) ih
    | injection i _ ih => exact hcall _ (.injection i) ih
    | headerPolicy p _ ih => exact hcall _ (.headerPolicy p) ih
    | fixedRequest f _ ih => exact hcall _ (.fixedRequest f) ih
    | queryAllowed b _ ih => exact hcall _ (.queryAllowed b) ih
    | encodedSeparators b _ ih => exact hcall _ (.encodedSeparators b) ih
    | bodyLimits a b _ ih => exact hcall _ (.bodyLimits a b) ih
  · rintro ⟨base, fresh, calls, hnew, rfl⟩
    induction calls using List.reverseRecOn with
    | nil => exact .new hnew
    | append_singleton calls c ih =>
      rw [build_snoc]
      cases c with
      | methods m => exact .methods m ih
      | injection i => exact .injection i ih
      | headerPolicy p => exact .headerPolicy p ih
      | fixedRequest f => exact .fixedRequest f ih
      | queryAllowed b => exact .queryAllowed b ih
      | encodedSeparators b => exact .encodedSeparators b ih
      | bodyLimits a b => exact .bodyLimits a b ih

/-! ## What the calls have set -/

theorem parse_canonical (method canonical : Text) (h : canonicalize method = some canonical) :
    MethodSet.parse canonical = .ok ⟨{canonical}⟩ := by
  obtain ⟨⟨hne, htoken⟩, hupper⟩ := canonicalize_token method canonical h
  have hall := List.all_eq_true.mp htoken
  have hsplit : canonical.splitOn (ch ',') = [canonical] := by
    apply List.splitOn_eq_singleton
    intro hmem
    have hcomma := hall _ hmem
    revert hcomma
    decide
  have htrim : trim canonical = canonical :=
    trim_of_graphic _ (List.all_eq_true.mpr fun b hb => graphic_of_tchar b (hall b hb))
  have hempty : canonical.isEmpty = false := List.isEmpty_eq_false_iff.mpr hne
  have hagain : canonicalize canonical = some canonical := by
    unfold canonicalize at h ⊢
    split at h
    · cases h
    · rename_i hlen
      have hsame : canonical.length = method.length := by rw [hupper, uppercase, List.length_map]
      simp only [Bool.or_eq_true, decide_eq_true_eq, not_or, Nat.not_lt] at hlen
      rw [if_neg (by simp only [hempty, hsame, Bool.false_or, decide_eq_true_eq]; omega),
        if_neg (by simpa [isTokenByte] using hall), hupper, uppercase_uppercase]
  unfold MethodSet.parse
  simp only [hsplit, List.foldlM_cons, List.foldlM_nil, MethodSet.parseItem, htrim, hempty, hagain,
    Bool.false_eq_true, if_false, pure_bind]
  rw [if_neg (Finset.insert_ne_empty _ _)]
  rfl

def setsMethods : BuilderCall → Bool
  | .methods _ => true
  | .fixedRequest fixed => (canonicalize fixed.method).isSome
  | _ => false

def setsQuery : BuilderCall → Bool
  | .queryAllowed _ => true
  | _ => false

/-- The last of the calls that set something. -/
def lastCall (sets : BuilderCall → Bool) (calls : List BuilderCall) : Option BuilderCall :=
  calls.reverse.find? sets

theorem lastCall_snoc (sets : BuilderCall → Bool) (calls : List BuilderCall) (c : BuilderCall) :
    lastCall sets (calls ++ [c]) = if sets c = true then some c else lastCall sets calls := by
  unfold lastCall
  rw [List.reverse_append, List.reverse_singleton, List.singleton_append, List.find?_cons]
  cases sets c <;> rfl

theorem withFixedRequest_methods (grant : Grant) (f : FixedRequest) (canonical : Text)
    (h : canonicalize f.method = some canonical) :
    (grant.withFixedRequest f).methods = ⟨{canonical}⟩ := by
  simp only [Grant.withFixedRequest, h, parse_canonical _ _ h]

theorem build_base (grant : Grant) (calls : List BuilderCall) : (build grant calls).base = grant.base := by
  induction calls using List.reverseRecOn with
  | nil => rfl
  | append_singleton calls c ih =>
    rw [build_snoc, ← ih]
    cases c <;> rfl

theorem build_scope (grant : Grant) (calls : List BuilderCall) : (build grant calls).scope = grant.scope := by
  rw [(build grant calls).scope_eq, grant.scope_eq, build_base]

theorem build_allowQuery (grant : Grant) (hallow : grant.allowQuery = true) (calls : List BuilderCall) :
    (build grant calls).allowQuery = true ↔ lastCall setsQuery calls ≠ some (.queryAllowed false) := by
  induction calls using List.reverseRecOn with
  | nil => simpa [build, lastCall] using hallow
  | append_singleton calls c ih =>
    rw [build_snoc, lastCall_snoc]
    cases c with
    | queryAllowed allow => cases allow <;> simp [applyCall, Grant.withQueryAllowed, setsQuery]
    | _ => exact ih

theorem build_methods (grant : Grant) (hnone : grant.fixed = none) (calls : List BuilderCall)
    (f : FixedRequest) (canonical : Text) (hcanonical : canonicalize f.method = some canonical)
    (hfixed : (build grant calls).fixed = some f) :
    (build grant calls).methods = ⟨{canonical}⟩ ↔
      ∀ methods, lastCall setsMethods calls = some (.methods methods) → methods = ⟨{canonical}⟩ := by
  induction calls using List.reverseRecOn with
  | nil =>
    rw [build, List.foldl_nil, hnone] at hfixed
    cases hfixed
  | append_singleton calls c ih =>
    rw [build_snoc] at hfixed ⊢
    rw [lastCall_snoc]
    cases c with
    | methods m =>
      simp only [applyCall, Grant.withMethods, setsMethods, if_true, Option.some.injEq,
        BuilderCall.methods.injEq, forall_eq']
    | fixedRequest f' =>
      obtain rfl : f' = f := Option.some.inj hfixed
      have hsets : setsMethods (.fixedRequest f') = true := by simp [setsMethods, hcanonical]
      rw [if_pos hsets]
      refine iff_of_true (withFixedRequest_methods _ f' canonical hcanonical) ?_
      intro methods hlast
      cases hlast
    | injection i => exact ih hfixed
    | headerPolicy p => exact ih hfixed
    | queryAllowed b => exact ih hfixed
    | encodedSeparators b => exact ih hfixed
    | bodyLimits a b => exact ih hfixed

/-! ## Calls in another order -/

theorem moved_last (grant : Grant) (before after : List BuilderCall) (c : BuilderCall)
    (hfixed : ∀ g, (applyCall g c).fixed = g.fixed)
    (hallow : ∀ g, (applyCall g c).allowEncodedSeparators = g.allowEncodedSeparators) :
    (build grant (before ++ after ++ [c])).fixed = (build grant (before ++ c :: after)).fixed ∧
      (build grant (before ++ after ++ [c])).allowEncodedSeparators =
        (build grant (before ++ c :: after)).allowEncodedSeparators := by
  constructor
  · rw [build_snoc, hfixed]
    refine (foldl_frame applyCall (·.fixed) (fun g g' d h => ?_) c hfixed before after grant).symm
    cases d <;> first | rfl | exact h
  · rw [build_snoc, hallow]
    refine (foldl_frame applyCall (·.allowEncodedSeparators) (fun g g' d h => ?_) c hallow before after
      grant).symm
    cases d <;> first | rfl | exact h

theorem some_order_ends (grant : Grant) (calls : List BuilderCall) (c : BuilderCall) (hmem : c ∈ calls)
    (hfixed : ∀ g, (applyCall g c).fixed = g.fixed)
    (hallow : ∀ g, (applyCall g c).allowEncodedSeparators = g.allowEncodedSeparators) :
    ∃ calls', (calls' ++ [c]).Perm calls ∧
      (build grant (calls' ++ [c])).fixed = (build grant calls).fixed ∧
      (build grant (calls' ++ [c])).allowEncodedSeparators = (build grant calls).allowEncodedSeparators := by
  obtain ⟨before, after, rfl⟩ := List.append_of_mem hmem
  refine ⟨before ++ after, ?_, moved_last grant before after c hfixed hallow⟩
  exact (List.perm_append_singleton c (before ++ after)).trans List.perm_middle.symm

theorem lastCall_mem (sets : BuilderCall → Bool) (calls : List BuilderCall) (c : BuilderCall)
    (h : lastCall sets calls = some c) : c ∈ calls :=
  List.mem_reverse.mp (List.mem_of_find?_eq_some h)

/-! ## What a pinned endpoint does -/

/-- The base URI joined with a target: one parse of the two written one after the other, with the
base's origin, and for its path the base's followed by the target's segments, each encoded. -/
def BaseJoined (encodes : Byte → Bool) (parseUrl : Text → Option Url) (base : Url)
    (target : NormalizedTarget) (url : Url) : Prop :=
  parseUrl (base.scheme ++ ascii "://" ++ base.authority ++ base.path ++ target.path ++
      target.query.elim [] fun q => ascii "?" ++ q) = some url ∧
    url.scheme = base.scheme ∧ url.authority = base.authority ∧
    url.path = base.path ++ encodePath encodes target.path

/-- Whatever the client asks for, the pinned request is what it gets, and all that is permitted. -/
def PerformsPinned (encodes : Byte → Bool) (parseUrl : Text → Option Url) (grant : Grant)
    (canonical : Text) (normalized : NormalizedTarget) : Prop :=
  (∃ url, BaseJoined encodes parseUrl grant.base normalized url ∧
      ∀ m t, grant.resolve parseUrl m t = .ok (canonical, url)) ∧
    grant.methods = ⟨{canonical}⟩

theorem baseJoined_iff (encodes : Byte → Bool) (parseUrl : Text → Option Url) (grant : Grant)
    (target : NormalizedTarget) (url : Url) :
    BaseJoined encodes parseUrl grant.base target url ↔
      grant.join parseUrl target = .ok url ∧ url.path = grant.base.path ++ encodePath encodes target.path := by
  simp only [BaseJoined, join_ok_iff, and_assoc]
  refine and_congr_right fun _ => and_congr_right fun _ => and_congr_right fun _ => ?_
  refine ⟨fun hpath => ⟨?_, hpath⟩, And.right⟩
  rw [hpath]
  exact List.prefix_append _ _

section Resolve

variable (parseUrl : Text → Option Url) (grant : Grant) (f : FixedRequest) (canonical : Text)
  (normalized : NormalizedTarget)

theorem resolve_pinned (hfixed : grant.fixed = some f) (hcanonical : canonicalize f.method = some canonical)
    (htarget : normalizeTarget f.target grant.allowEncodedSeparators = .ok normalized)
    (hexact : grant.scope = .exact → normalized.path = []) (m t : Text) (url : Url) :
    grant.resolve parseUrl m t = .ok (canonical, url) ↔
      canonical ∈ grant.methods.methods ∧ (normalized.query.isSome → grant.allowQuery = true) ∧
        grant.join parseUrl normalized = .ok url := by
  have heffective : grant.effective m t = (f.method, f.target) := by
    unfold Grant.effective
    rw [hfixed]
  unfold Grant.resolve
  simp only [heffective, hcanonical, htarget, throw_bind_else_eq_ok, Bool.not_eq_true', Bool.not_eq_false,
    Except.mapError, ok_bind, Bool.and_eq_true, not_and, List.isEmpty_iff, bind_eq_ok, pure_eq_ok,
    Prod.mk.injEq, true_and, MethodSet.contains, decide_eq_true_eq]
  constructor
  · rintro ⟨hmethod, hquery, -, _, hjoin, rfl⟩
    exact ⟨hmethod, hquery, hjoin⟩
  · rintro ⟨hmethod, hquery, hjoin⟩
    exact ⟨hmethod, hquery, hexact, url, hjoin, rfl⟩

theorem performsPinned_iff (encodes : Byte → Bool) (hurl : Whatwg encodes parseUrl)
    (hbuilt : grant.Built parseUrl) (hfixed : grant.fixed = some f)
    (hcanonical : canonicalize f.method = some canonical)
    (htarget : normalizeTarget f.target grant.allowEncodedSeparators = .ok normalized)
    (hexact : grant.scope = .exact → normalized.path = []) :
    PerformsPinned encodes parseUrl grant canonical normalized ↔
      grant.methods = ⟨{canonical}⟩ ∧ (normalized.query.isSome → grant.allowQuery = true) ∧
        ch '\\' ∉ normalized.path := by
  have hresolve := resolve_pinned parseUrl grant f canonical normalized hfixed hcanonical htarget hexact
  rw [← join_spelled encodes parseUrl hurl grant hbuilt _ f.target normalized htarget hexact]
  constructor
  · rintro ⟨⟨url, hjoined, hall⟩, hmethods⟩
    have hjoin := (baseJoined_iff encodes parseUrl grant normalized url).mp hjoined
    exact ⟨hmethods, ((hresolve [] [] url).mp (hall [] [])).2.1, url, hjoin⟩
  · rintro ⟨hmethods, hquery, url, hjoin⟩
    refine ⟨⟨url, (baseJoined_iff encodes parseUrl grant normalized url).mpr hjoin, fun m t => ?_⟩,
      hmethods⟩
    refine (hresolve m t url).mpr ⟨?_, hquery, hjoin.1⟩
    rw [hmethods]
    exact Finset.mem_singleton_self canonical

end Resolve

theorem new_defaults (parseUrl : Text → Option Url) (base : Text) (fresh : Grant)
    (h : Grant.new parseUrl base = .ok fresh) : fresh.fixed = none ∧ fresh.allowQuery = true := by
  unfold Grant.new at h
  split at h
  · cases h
  · simp only [throw_bind_else_eq_ok, pure_eq_ok] at h
    obtain ⟨-, -, -, -, -, rfl⟩ := h
    exact ⟨rfl, rfl⟩

/-- Every order of the calls that pins the request, with a target that is accepted, performs it. -/
def EveryOrderPerforms (encodes : Byte → Bool) (parseUrl : Text → Option Url) (fresh : Grant)
    (calls : List BuilderCall) (f : FixedRequest) (canonical : Text) : Prop :=
  ∀ calls' : List BuilderCall, calls'.Perm calls → (build fresh calls').fixed = some f →
    ∀ normalized, normalizeTarget f.target (build fresh calls').allowEncodedSeparators = .ok normalized →
      PerformsPinned encodes parseUrl (build fresh calls') canonical normalized

section Order

variable (encodes : Byte → Bool) (parseUrl : Text → Option Url) (hurl : Whatwg encodes parseUrl)
  (base : Text) (fresh : Grant) (hnew : Grant.new parseUrl base = .ok fresh) (calls : List BuilderCall)
  (f : FixedRequest) (hfixed : (build fresh calls).fixed = some f) (canonical : Text)
  (hcanonical : canonicalize f.method = some canonical) (normalized : NormalizedTarget)
  (htarget : normalizeTarget f.target (build fresh calls).allowEncodedSeparators = .ok normalized)
  (hexact : fresh.scope = .exact → normalized.path = [])
include hurl hnew hfixed hcanonical htarget hexact

theorem performs_iff_last :
    PerformsPinned encodes parseUrl (build fresh calls) canonical normalized ↔
      (∀ methods, lastCall setsMethods calls = some (.methods methods) → methods = ⟨{canonical}⟩) ∧
        (normalized.query.isSome → lastCall setsQuery calls ≠ some (.queryAllowed false)) ∧
        ch '\\' ∉ normalized.path := by
  obtain ⟨hnone, hallow⟩ := new_defaults parseUrl base fresh hnew
  have hbuilt := (built_iff parseUrl _).mpr ⟨base, fresh, calls, hnew, rfl⟩
  rw [← build_scope fresh calls] at hexact
  rw [performsPinned_iff parseUrl _ f canonical normalized encodes hurl hbuilt hfixed hcanonical htarget
      hexact,
    build_methods fresh hnone calls f canonical hcanonical hfixed, build_allowQuery fresh hallow calls]

-- A call that could spoil the pin is moved to the end, where nothing comes after it.
theorem performs_ending (hevery : EveryOrderPerforms encodes parseUrl fresh calls f canonical)
    (c : BuilderCall) (hc : c ∈ calls) (hpin : ∀ g, (applyCall g c).fixed = g.fixed)
    (hallow : ∀ g, (applyCall g c).allowEncodedSeparators = g.allowEncodedSeparators) :
    ∃ calls',
      (∀ methods, lastCall setsMethods (calls' ++ [c]) = some (.methods methods) → methods = ⟨{canonical}⟩) ∧
        (normalized.query.isSome → lastCall setsQuery (calls' ++ [c]) ≠ some (.queryAllowed false)) := by
  obtain ⟨calls', hperm, hfixed', hallow'⟩ := some_order_ends fresh calls c hc hpin hallow
  rw [← hfixed'] at hfixed
  rw [← hallow'] at htarget
  have hperforms := hevery _ hperm hfixed normalized htarget
  obtain ⟨hmethods, hquery, -⟩ := (performs_iff_last encodes parseUrl hurl base fresh hnew _ f hfixed
    canonical hcanonical normalized htarget hexact).mp hperforms
  exact ⟨calls', hmethods, hquery⟩

theorem every_order_iff :
    EveryOrderPerforms encodes parseUrl fresh calls f canonical ↔
      (∀ methods, .methods methods ∈ calls → methods = ⟨{canonical}⟩) ∧
        (normalized.query.isSome → .queryAllowed false ∉ calls) ∧ ch '\\' ∉ normalized.path := by
  constructor
  · intro hevery
    have hending := performs_ending encodes parseUrl hurl base fresh hnew calls f hfixed canonical hcanonical
      normalized htarget hexact hevery
    refine ⟨fun methods hmem => ?_, fun hsome hmem => ?_, ?_⟩
    · obtain ⟨calls', hmethods, -⟩ := hending _ hmem (fun _ => rfl) (fun _ => rfl)
      exact hmethods methods (by rw [lastCall_snoc]; rfl)
    · obtain ⟨calls', -, hquery⟩ := hending _ hmem (fun _ => rfl) (fun _ => rfl)
      exact hquery hsome (by rw [lastCall_snoc]; rfl)
    · have hperforms := hevery calls (List.Perm.refl _) hfixed normalized htarget
      exact ((performs_iff_last encodes parseUrl hurl base fresh hnew calls f hfixed canonical hcanonical
        normalized htarget hexact).mp hperforms).2.2
  · rintro ⟨hmethods, hquery, hback⟩ calls' hperm hfixed' n htarget'
    obtain rfl := Target.normalizeTarget_unique _ _ _ _ _ htarget htarget'
    refine (performs_iff_last encodes parseUrl hurl base fresh hnew calls' f hfixed' canonical hcanonical n
      htarget' hexact).mpr ⟨fun methods hlast => ?_, fun hsome hlast => ?_, hback⟩
    · exact hmethods methods (hperm.mem_iff.mp (lastCall_mem _ _ _ hlast))
    · exact hquery hsome (hperm.mem_iff.mp (lastCall_mem _ _ _ hlast))

end Order

/-- **A pinned endpoint** performs its pinned request exactly when the last call that set its methods
set that of the request, the last that set whether queries are allowed let its query through, and its
path has no backslash. It does so whatever the order of the calls exactly when every call does. -/
theorem pinned_performs_iff (encodes : Byte → Bool) (parseUrl : Text → Option Url)
    (hurl : Whatwg encodes parseUrl) (base : Text) (fresh : Grant)
    (hnew : Grant.new parseUrl base = .ok fresh) (calls : List BuilderCall) (f : FixedRequest)
    (hfixed : (build fresh calls).fixed = some f) (canonical : Text)
    (hcanonical : canonicalize f.method = some canonical) (normalized : NormalizedTarget)
    (htarget : normalizeTarget f.target (build fresh calls).allowEncodedSeparators = .ok normalized)
    (hexact : (build fresh calls).scope = .exact → normalized.path = []) :
    (PerformsPinned encodes parseUrl (build fresh calls) canonical normalized ↔
      (∀ methods, lastCall setsMethods calls = some (.methods methods) → methods = ⟨{canonical}⟩) ∧
        (normalized.query.isSome → lastCall setsQuery calls ≠ some (.queryAllowed false)) ∧
        ch '\\' ∉ normalized.path) ∧
    (EveryOrderPerforms encodes parseUrl fresh calls f canonical ↔
      (∀ methods, .methods methods ∈ calls → methods = ⟨{canonical}⟩) ∧
        (normalized.query.isSome → .queryAllowed false ∉ calls) ∧ ch '\\' ∉ normalized.path) := by
  rw [build_scope] at hexact
  constructor
  · exact performs_iff_last encodes parseUrl hurl base fresh hnew calls f hfixed canonical hcanonical
      normalized htarget hexact
  · exact every_order_iff encodes parseUrl hurl base fresh hnew calls f hfixed canonical hcanonical
      normalized htarget hexact

/-! ## An endpoint below a prefix -/

def posting : FixedRequest := ⟨ascii "post", ascii "/b?q"⟩

def freshBelow : Grant where
  base := grantBelow.base
  scope := .prefixed
  methods := .safeDefault
  injections := []
  headers := .allExceptDenied
  fixed := none
  allowQuery := true
  allowEncodedSeparators := false
  maxRequestBody := defaultMaxBody
  maxResponseBody := defaultMaxBody
  scope_eq := grantBelow.scope_eq

theorem freshBelow_new : Grant.new parseAtHost (ascii "http://h/a/") = .ok freshBelow := by
  have hparse : parseAtHost (ascii "http://h/a/") = some grantBelow.base := by decide +kernel
  rw [Grant.new.eq_def, hparse]
  rfl

theorem posting_checks : canonicalize posting.method = some (ascii "POST") ∧
    normalizeTarget posting.target false = .ok ⟨ascii "b", some (ascii "q")⟩ := by
  decide +kernel

theorem pinned_performs_iff_posting :
    PerformsPinned pathSet parseAtHost
      (build freshBelow [.methods .safeDefault, .fixedRequest posting, .queryAllowed true])
      (ascii "POST") ⟨ascii "b", some (ascii "q")⟩ := by
  obtain ⟨hcanonical, htarget⟩ := posting_checks
  have hprefixed : ¬ Scope.prefixed = Scope.exact := by decide
  refine (pinned_performs_iff pathSet parseAtHost parseAtHost_whatwg (ascii "http://h/a/") freshBelow
    freshBelow_new [.methods .safeDefault, .fixedRequest posting, .queryAllowed true] posting rfl
    (ascii "POST") hcanonical ⟨ascii "b", some (ascii "q")⟩ htarget
    (fun h => absurd h hprefixed)).1.mpr ⟨fun methods hlast => ?_, fun _ hlast => ?_, by decide⟩
  · have hlast' : lastCall setsMethods
        [.methods .safeDefault, .fixedRequest posting, .queryAllowed true] =
          some (.fixedRequest posting) := rfl
    rw [hlast'] at hlast
    cases hlast
  · cases hlast

/-- Pinned to a request with a query, and then told that clients may not send one: it refuses. -/
theorem pinned_refused :
    Whatwg pathSet parseAtHost ∧ Grant.new parseAtHost (ascii "http://h/a/") = .ok freshBelow ∧
      (build freshBelow [.fixedRequest posting, .queryAllowed false]).fixed = some posting ∧
      canonicalize posting.method = some (ascii "POST") ∧
      normalizeTarget posting.target
          (build freshBelow [.fixedRequest posting, .queryAllowed false]).allowEncodedSeparators =
        .ok ⟨ascii "b", some (ascii "q")⟩ ∧
      (∀ m t, (build freshBelow [.fixedRequest posting, .queryAllowed false]).resolve parseAtHost m t =
        .error (.target .queryNotAllowed)) ∧
      ¬ PerformsPinned pathSet parseAtHost
        (build freshBelow [.fixedRequest posting, .queryAllowed false])
        (ascii "POST") ⟨ascii "b", some (ascii "q")⟩ := by
  obtain ⟨hcanonical, htarget⟩ := posting_checks
  have hrefused : ∀ m t, (build freshBelow [.fixedRequest posting, .queryAllowed false]).resolve parseAtHost
      m t = .error (.target .queryNotAllowed) := by
    intro m t
    have hignored : (build freshBelow [.fixedRequest posting, .queryAllowed false]).resolve parseAtHost
        m t = (build freshBelow [.fixedRequest posting, .queryAllowed false]).resolve parseAtHost [] [] :=
      rfl
    rw [hignored]
    decide +kernel
  refine ⟨parseAtHost_whatwg, freshBelow_new, rfl, hcanonical, htarget, hrefused, ?_⟩
  rintro ⟨⟨url, -, hall⟩, -⟩
  have hsome := hall [] []
  rw [hrefused] at hsome
  cases hsome

end Capcurl.Pinned
