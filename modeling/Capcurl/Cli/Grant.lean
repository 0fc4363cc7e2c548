import Capcurl.Cli.Capcurld
import Capcurl.Pinned
import Mathlib.Data.List.Forall2

/-! # The grant that the options of the daemon say -/

namespace Capcurl.Cli.Capcurld

open Lib Policy Pinned

/-- The methods that `-X` lists. -/
def Listed (options : Options) (methods : MethodSet) : Prop :=
  match options.methods with
  | some spec => MethodSet.parse spec = .ok methods
  | none => methods = .safeDefault

/-- The policy that `-c` names. -/
def PolicyOf (options : Options) (policy : HeaderPolicy) : Prop :=
  match options.headerPolicy with
  | some spec => HeaderPolicy.parse spec = .ok policy
  | none => policy = .allExceptDenied

/-- The request that `-f` pins. -/
def PinnedTo (options : Options) (fixed : Option FixedRequest) : Prop :=
  match options.fixed with
  | some spec => ∃ pin, parseFixed spec = .ok pin ∧ fixed = some pin
  | none => fixed = none

/-- The headers that `-H` injects. -/
def Injects (readFile : Text → Option Text) (options : Options) (injections : List Injection) : Prop :=
  List.Forall₂ (fun spec injection => Injection.parse readFile spec = .ok injection) options.injections
    injections

/-- The method set of an endpoint: the pinned method, or what is listed. -/
def methodsOf (fixed : Option FixedRequest) (listed : MethodSet) : MethodSet :=
  match fixed.bind fun fixed => canonicalize fixed.method with
  | some canonical => ⟨{canonical}⟩
  | none => listed

/-- The grant is what the options say. -/
structure Configured (parseUrl : Text → Option Url) (readFile : Text → Option Text) (options : Options)
    (grant : Grant) : Prop where
  base : ∃ text fresh, options.base = some text ∧ Grant.new parseUrl text = .ok fresh ∧
    grant.base = fresh.base
  injections : Injects readFile options grant.injections
  headers : PolicyOf options grant.headers
  fixed : PinnedTo options grant.fixed
  methods : ∃ listed, Listed options listed ∧ grant.methods = methodsOf grant.fixed listed
  query : grant.allowQuery = options.allowQuery
  separators : grant.allowEncodedSeparators = options.allowEncodedSeparators
  requestBody : grant.maxRequestBody = options.maxRequestBody.getD defaultMaxBody
  responseBody : grant.maxResponseBody = options.maxResponseBody.getD defaultMaxBody

section Steps

variable (readFile : Text → Option Text) (options : Options) (grant grant' : Grant)

theorem setMethods_ok (h : setMethods options grant = .ok grant') (hfresh : grant.methods = .safeDefault) :
    ∃ listed, Listed options listed ∧ grant' = grant.withMethods listed := by
  unfold setMethods at h
  unfold Listed
  cases hspec : options.methods with
  | none =>
    rw [hspec] at h
    cases h
    refine ⟨.safeDefault, rfl, ?_⟩
    rw [← hfresh]
    rfl
  | some spec =>
    rw [hspec] at h
    simp only [bind_eq_ok, mapError_eq_ok, pure_eq_ok] at h
    obtain ⟨listed, hparse, rfl⟩ := h
    exact ⟨listed, hparse, rfl⟩

theorem inject_ok (specs : List Text) (h : specs.foldlM (inject readFile) grant = .ok grant') :
    ∃ injections, List.Forall₂ (fun spec injection => Injection.parse readFile spec = .ok injection)
        specs injections ∧
      grant' = { grant with injections := grant.injections ++ injections } := by
  induction specs generalizing grant with
  | nil =>
    cases h
    exact ⟨[], .nil, by simp⟩
  | cons spec specs ih =>
    rw [List.foldlM_cons, bind_eq_ok] at h
    obtain ⟨next, hinject, hrest⟩ := h
    simp only [inject, bind_eq_ok, mapError_eq_ok, pure_eq_ok] at hinject
    obtain ⟨injection, hparse, rfl⟩ := hinject
    obtain ⟨injections, hall, rfl⟩ := ih _ hrest
    exact ⟨injection :: injections, .cons hparse hall, by simp [Grant.withInjection]⟩

theorem setHeaderPolicy_ok (h : setHeaderPolicy options grant = .ok grant')
    (hfresh : grant.headers = .allExceptDenied) :
    PolicyOf options grant'.headers ∧ grant' = grant.withHeaderPolicy grant'.headers := by
  unfold setHeaderPolicy at h
  unfold PolicyOf
  cases hspec : options.headerPolicy with
  | none =>
    rw [hspec] at h
    cases h
    exact ⟨hfresh, rfl⟩
  | some spec =>
    rw [hspec] at h
    simp only [bind_eq_ok, mapError_eq_ok, pure_eq_ok] at h
    obtain ⟨policy, hparse, rfl⟩ := h
    exact ⟨hparse, rfl⟩

theorem setFixed_ok (h : setFixed options grant = .ok grant') (hfresh : grant.fixed = none) :
    PinnedTo options grant'.fixed ∧
    grant'.methods = methodsOf grant'.fixed grant.methods ∧ grant'.base = grant.base ∧
    grant'.injections = grant.injections ∧ grant'.headers = grant.headers ∧
    grant'.maxRequestBody = grant.maxRequestBody ∧ grant'.maxResponseBody = grant.maxResponseBody := by
  unfold setFixed at h
  unfold PinnedTo
  cases hspec : options.fixed with
  | none =>
    rw [hspec] at h
    cases h
    exact ⟨hfresh, by rw [hfresh]; rfl, rfl, rfl, rfl, rfl, rfl⟩
  | some spec =>
    rw [hspec] at h
    simp only [bind_eq_ok, pure_eq_ok] at h
    obtain ⟨fixed, hparse, rfl⟩ := h
    refine ⟨⟨fixed, hparse, rfl⟩, ?_, rfl, rfl, rfl, rfl, rfl⟩
    have hpinned : (grant.withFixedRequest fixed).fixed = some fixed := rfl
    rw [hpinned, methodsOf, Option.bind_some]
    cases hcanonical : canonicalize fixed.method with
    | none => simp only [Grant.withFixedRequest, hcanonical]
    | some canonical => exact withFixedRequest_methods grant fixed canonical hcanonical

theorem setLimits_fields :
    (setLimits options grant).base = grant.base ∧ (setLimits options grant).injections = grant.injections ∧
    (setLimits options grant).headers = grant.headers ∧ (setLimits options grant).fixed = grant.fixed ∧
    (setLimits options grant).methods = grant.methods ∧
    (setLimits options grant).allowQuery = grant.allowQuery ∧
    (setLimits options grant).allowEncodedSeparators = grant.allowEncodedSeparators := by
  unfold setLimits
  split <;> exact ⟨rfl, rfl, rfl, rfl, rfl, rfl, rfl⟩

theorem setLimits_limits (hrequest : grant.maxRequestBody = defaultMaxBody)
    (hresponse : grant.maxResponseBody = defaultMaxBody) :
    (setLimits options grant).maxRequestBody = options.maxRequestBody.getD defaultMaxBody ∧
    (setLimits options grant).maxResponseBody = options.maxResponseBody.getD defaultMaxBody := by
  unfold setLimits
  split
  · exact ⟨rfl, rfl⟩
  · rename_i hnone
    simp only [Bool.or_eq_true, not_or, Bool.not_eq_true, Option.isSome_eq_false_iff, Option.isNone_iff_eq_none] at hnone
    rw [hnone.1, hnone.2]
    exact ⟨hrequest, hresponse⟩

end Steps

theorem new_fresh (parseUrl : Text → Option Url) (base : Text) (fresh : Grant)
    (h : Grant.new parseUrl base = .ok fresh) :
    fresh.methods = .safeDefault ∧ fresh.injections = [] ∧ fresh.headers = .allExceptDenied ∧
      fresh.fixed = none ∧ fresh.maxRequestBody = defaultMaxBody ∧ fresh.maxResponseBody = defaultMaxBody := by
  unfold Grant.new at h
  split at h
  · cases h
  · simp only [throw_bind_else_eq_ok, pure_eq_ok] at h
    obtain ⟨-, -, -, -, -, rfl⟩ := h
    exact ⟨rfl, rfl, rfl, rfl, rfl, rfl⟩

theorem buildGrant_configured (parseUrl : Text → Option Url) (readFile : Text → Option Text)
    (options : Options) (grant : Grant) (h : buildGrant parseUrl readFile options = .ok grant) :
    Configured parseUrl readFile options grant := by
  unfold buildGrant at h
  cases hbase : options.base with
  | none =>
    rw [hbase] at h
    cases h
  | some base =>
    rw [hbase] at h
    simp only [bind_eq_ok, mapError_eq_ok, pure_eq_ok] at h
    obtain ⟨fresh, hnew, listed, hlisted, injected, hinjected, restricted, hrestricted, pinned, hpinned, rfl⟩ := h
    obtain ⟨hmethods, hinjections, hheaders, hfixed, hrequest, hresponse⟩ := new_fresh parseUrl base fresh hnew
    obtain ⟨set, hset, rfl⟩ := setMethods_ok options fresh listed hlisted hmethods
    obtain ⟨injections, hall, rfl⟩ := inject_ok readFile _ injected _ hinjected
    obtain ⟨hpolicy, hrestricted⟩ := setHeaderPolicy_ok options _ restricted hrestricted hheaders
    rw [hrestricted] at hpinned
    obtain ⟨hpin, hpinMethods, hpinBase, hpinInjections, hpinHeaders, hpinRequest, hpinResponse⟩ :=
      setFixed_ok options _ pinned hpinned hfixed
    obtain ⟨hbase', hinjections', hheaders', hfixed', hmethods', hquery', hseparators'⟩ :=
      setLimits_fields options ((pinned.withQueryAllowed options.allowQuery).withEncodedSeparatorsAllowed
        options.allowEncodedSeparators)
    obtain ⟨hrequest', hresponse'⟩ := setLimits_limits options
      ((pinned.withQueryAllowed options.allowQuery).withEncodedSeparatorsAllowed
        options.allowEncodedSeparators) (hpinRequest.trans hrequest) (hpinResponse.trans hresponse)
    exact {
      base := ⟨base, fresh, hbase, hnew, hbase'.trans hpinBase⟩
      injections := by
        have hsame : pinned.injections = fresh.injections ++ injections := hpinInjections
        rw [hinjections']
        change Injects readFile options pinned.injections
        rw [hsame, hinjections, List.nil_append]
        exact hall
      headers := by
        rw [hheaders']
        change PolicyOf options pinned.headers
        rw [hpinHeaders]
        exact hpolicy
      fixed := by
        rw [hfixed']
        exact hpin
      methods := ⟨set, hset, by
        rw [hmethods', hfixed']
        exact hpinMethods⟩
      query := hquery'
      separators := hseparators'
      requestBody := hrequest'
      responseBody := hresponse' }

theorem buildGrant_ok (parseUrl : Text → Option Url) (readFile : Text → Option Text) (options : Options)
    (grant : Grant) (h : Configured parseUrl readFile options grant) :
    ∃ built, buildGrant parseUrl readFile options = .ok built := by
  obtain ⟨text, fresh, hbase, hnew, -⟩ := h.base
  obtain ⟨listed, hlisted, -⟩ := h.methods
  have hset : ∀ g, ∃ g', setMethods options g = .ok g' := by
    intro g
    unfold setMethods
    unfold Listed at hlisted
    cases hspec : options.methods with
    | none => exact ⟨g, rfl⟩
    | some spec =>
      rw [hspec] at hlisted
      simp only [hlisted]
      exact ⟨_, rfl⟩
  have hinject : ∀ (specs : List Text) (injections : List Injection) (g : Grant),
      List.Forall₂ (fun spec injection => Injection.parse readFile spec = .ok injection) specs injections →
      ∃ g', specs.foldlM (inject readFile) g = .ok g' := by
    intro specs injections g hall
    induction hall generalizing g with
    | nil => exact ⟨g, rfl⟩
    | cons hparse _ ih =>
      rw [List.foldlM_cons, inject, hparse]
      exact ih _
  have hpolicy : ∀ g, ∃ g', setHeaderPolicy options g = .ok g' := by
    intro g
    have hheaders := h.headers
    unfold PolicyOf at hheaders
    unfold setHeaderPolicy
    cases hspec : options.headerPolicy with
    | none => exact ⟨g, rfl⟩
    | some spec =>
      rw [hspec] at hheaders
      simp only [hheaders]
      exact ⟨_, rfl⟩
  have hfixed : ∀ g, ∃ g', setFixed options g = .ok g' := by
    intro g
    have hpinned := h.fixed
    unfold PinnedTo at hpinned
    unfold setFixed
    cases hspec : options.fixed with
    | none => exact ⟨g, rfl⟩
    | some spec =>
      rw [hspec] at hpinned
      obtain ⟨pin, hparse, -⟩ := hpinned
      simp only [hparse]
      exact ⟨_, rfl⟩
  obtain ⟨g₁, h₁⟩ := hset fresh
  obtain ⟨g₂, h₂⟩ := hinject _ _ g₁ h.injections
  obtain ⟨g₃, h₃⟩ := hpolicy g₂
  obtain ⟨g₄, h₄⟩ := hfixed g₃
  unfold buildGrant
  simp only [hbase, hnew, Except.mapError, ok_bind, h₁, h₂, h₃, h₄]
  exact ⟨_, rfl⟩

section Unique

variable (options : Options)

theorem listed_unique (methods methods' : MethodSet) (h : Listed options methods)
    (h' : Listed options methods') : methods = methods' := by
  unfold Listed at h h'
  cases hspec : options.methods with
  | none =>
    rw [hspec] at h h'
    exact h.trans h'.symm
  | some spec =>
    rw [hspec] at h h'
    exact Except.ok.inj (h.symm.trans h')

theorem policyOf_unique (policy policy' : HeaderPolicy) (h : PolicyOf options policy)
    (h' : PolicyOf options policy') : policy = policy' := by
  unfold PolicyOf at h h'
  cases hspec : options.headerPolicy with
  | none =>
    rw [hspec] at h h'
    exact h.trans h'.symm
  | some spec =>
    rw [hspec] at h h'
    exact Except.ok.inj (h.symm.trans h')

theorem pinnedTo_unique (fixed fixed' : Option FixedRequest) (h : PinnedTo options fixed)
    (h' : PinnedTo options fixed') : fixed = fixed' := by
  unfold PinnedTo at h h'
  cases hspec : options.fixed with
  | none =>
    rw [hspec] at h h'
    exact h.trans h'.symm
  | some spec =>
    rw [hspec] at h h'
    obtain ⟨pin, hparse, rfl⟩ := h
    obtain ⟨pin', hparse', rfl⟩ := h'
    rw [Except.ok.inj (hparse.symm.trans hparse')]

theorem injects_unique (readFile : Text → Option Text) (injections injections' : List Injection)
    (h : Injects readFile options injections) (h' : Injects readFile options injections') :
    injections = injections' := by
  have hone : Relator.RightUnique fun spec injection => Injection.parse readFile spec = .ok injection :=
    fun _ _ _ hparse hparse' => Except.ok.inj (hparse.symm.trans hparse')
  exact hone.forall₂ h h'

end Unique

theorem configured_unique (parseUrl : Text → Option Url) (readFile : Text → Option Text) (options : Options)
    (grant grant' : Grant) (h : Configured parseUrl readFile options grant)
    (h' : Configured parseUrl readFile options grant') : grant = grant' := by
  have hbase : grant.base = grant'.base := by
    obtain ⟨text, fresh, htext, hnew, hsame⟩ := h.base
    obtain ⟨text', fresh', htext', hnew', hsame'⟩ := h'.base
    cases htext.symm.trans htext'
    cases hnew.symm.trans hnew'
    rw [hsame, hsame']
  have hscope : grant.scope = grant'.scope := by rw [grant.scope_eq, grant'.scope_eq, hbase]
  have hinjections := injects_unique options readFile _ _ h.injections h'.injections
  have hheaders := policyOf_unique options _ _ h.headers h'.headers
  have hfixed := pinnedTo_unique options _ _ h.fixed h'.fixed
  have hmethods : grant.methods = grant'.methods := by
    obtain ⟨listed, hlisted, hsame⟩ := h.methods
    obtain ⟨listed', hlisted', hsame'⟩ := h'.methods
    rw [hsame, hsame', hfixed, listed_unique options listed listed' hlisted hlisted']
  have hquery := h.query.trans h'.query.symm
  have hseparators := h.separators.trans h'.separators.symm
  have hrequest := h.requestBody.trans h'.requestBody.symm
  have hresponse := h.responseBody.trans h'.responseBody.symm
  cases grant
  cases grant'
  simp only at hbase hscope hmethods hinjections hheaders hfixed hquery hseparators hrequest hresponse
  subst hbase hscope hmethods hinjections hheaders hfixed hquery hseparators hrequest hresponse
  rfl

theorem buildGrant_iff (parseUrl : Text → Option Url) (readFile : Text → Option Text) (options : Options)
    (grant : Grant) :
    buildGrant parseUrl readFile options = .ok grant ↔ Configured parseUrl readFile options grant := by
  constructor
  · exact buildGrant_configured parseUrl readFile options grant
  · intro h
    obtain ⟨built, hbuilt⟩ := buildGrant_ok parseUrl readFile options grant h
    rw [hbuilt, configured_unique parseUrl readFile options grant built h
      (buildGrant_configured parseUrl readFile options built hbuilt)]

end Capcurl.Cli.Capcurld
