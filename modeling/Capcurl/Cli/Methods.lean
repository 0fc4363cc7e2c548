import Capcurl.Cli.Grant
import Capcurl.Cli.Line
import Capcurl.Join

/-! # The methods that an endpoint prints -/

namespace Capcurl.Cli.Capcurld

open Lib Policy Pinned Resolve

/-! ## What a list of methods says -/

theorem parseMethods_iff (items : List Text) (set set' : Finset Text) :
    items.foldlM MethodSet.parseItem set = .ok set' ↔
      (∀ raw ∈ items, trim raw ≠ [] → (canonicalize (trim raw)).isSome = true) ∧
      set' = set ∪ (items.filterMap fun raw => canonicalize (trim raw)).toFinset := by
  induction items generalizing set with
  | nil =>
    simp only [List.foldlM_nil, pure_eq_ok, List.not_mem_nil, false_imp_iff, implies_true, List.filterMap_nil,
      List.toFinset_nil, Finset.union_empty, true_and]
    exact eq_comm
  | cons raw items ih =>
    rw [List.foldlM_cons, List.forall_mem_cons, List.filterMap_cons]
    simp only [MethodSet.parseItem]
    by_cases hblank : trim raw = []
    · have hnone : canonicalize [] = none := rfl
      simp only [hblank, List.isEmpty_nil, if_true, pure_bind, hnone, ih, ne_eq, not_true_eq_false,
        false_imp_iff, true_and]
    · simp only [List.isEmpty_eq_false_iff.mpr hblank, Bool.false_eq_true, if_false]
      cases hcanonical : canonicalize (trim raw) with
      | none =>
        refine iff_of_false nofun ?_
        rintro ⟨⟨hsome, -⟩, -⟩
        exact absurd (hsome hblank) (by simp)
      | some method =>
        simp only [pure_bind, ih, Option.isSome_some, implies_true, true_and, List.toFinset_cons,
          Finset.insert_union, Finset.union_insert]

theorem parse_methods_iff (spec : Text) (set : MethodSet) :
    MethodSet.parse spec = .ok set ↔
      (∀ raw ∈ spec.splitOn (ch ','), trim raw ≠ [] → (canonicalize (trim raw)).isSome = true) ∧
      set.methods = ((spec.splitOn (ch ',')).filterMap fun raw => canonicalize (trim raw)).toFinset ∧
      set.methods ≠ ∅ := by
  obtain ⟨methods⟩ := set
  unfold MethodSet.parse
  simp only [bind_eq_ok, parseMethods_iff, throw_bind_else_eq_ok, pure_eq_ok, MethodSet.mk.injEq,
    Finset.empty_union]
  constructor
  · rintro ⟨_, ⟨hitems, rfl⟩, hne, rfl⟩
    exact ⟨hitems, rfl, hne⟩
  · rintro ⟨hitems, rfl, hne⟩
    exact ⟨_, ⟨hitems, rfl⟩, hne, rfl⟩

/-! ## The sets that a program holds -/

/-- The methods of a set stand for themselves, and there are some. -/
structure Canonical (set : MethodSet) : Prop where
  nonempty : set.methods ≠ ∅
  canonical : ∀ method ∈ set.methods, canonicalize method = some method

theorem canonicalize_again (method canonical : Text) (h : canonicalize method = some canonical) :
    canonicalize canonical = some canonical := by
  obtain ⟨⟨hne, htoken⟩, hupper⟩ := canonicalize_token method canonical h
  have hlen : canonical.length ≤ 32 := by
    unfold canonicalize at h
    split at h
    · cases h
    · rename_i hshort
      simp only [Bool.or_eq_true, decide_eq_true_eq, not_or, Nat.not_lt] at hshort
      rw [hupper, uppercase, List.length_map]
      exact hshort.2
  have hsame : uppercase canonical = canonical := by rw [hupper, uppercase_uppercase]
  unfold canonicalize
  rw [if_neg (by simp [hne, hlen]), if_neg (by simpa [isTokenByte] using htoken), hsame]

theorem canonical_of_parse (spec : Text) (set : MethodSet) (h : MethodSet.parse spec = .ok set) :
    Canonical set := by
  obtain ⟨-, hset, hne⟩ := (parse_methods_iff spec set).mp h
  refine ⟨hne, fun method hmethod => ?_⟩
  rw [hset, List.mem_toFinset, List.mem_filterMap] at hmethod
  obtain ⟨raw, -, hcanonical⟩ := hmethod
  exact canonicalize_again _ _ hcanonical

theorem canonical_of_configured (parseUrl : Text → Option Url) (readFile : Text → Option Text)
    (options : Options) (grant : Grant) (h : Configured parseUrl readFile options grant) :
    Canonical grant.methods := by
  obtain ⟨listed, hlisted, hmethods⟩ := h.methods
  rw [hmethods]
  unfold methodsOf
  split
  · rename_i canonical hcanonical
    obtain ⟨fixed, -, hcanonical⟩ := Option.bind_eq_some_iff.mp hcanonical
    refine ⟨Finset.singleton_ne_empty canonical, fun method hmethod => ?_⟩
    rw [Finset.mem_singleton.mp hmethod]
    exact canonicalize_again _ _ hcanonical
  · unfold Listed at hlisted
    split at hlisted
    · exact canonical_of_parse _ _ hlisted
    · rw [hlisted]
      exact ⟨by decide, by decide⟩

/-! ## Printing, and reading it again -/

theorem method_bytes (method : Text) (h : canonicalize method = some method) :
    trim method = method ∧ ch ',' ∉ method := by
  obtain ⟨⟨-, htoken⟩, -⟩ := canonicalize_token method method h
  have hall := List.all_eq_true.mp htoken
  constructor
  · exact trim_of_graphic _ (List.all_eq_true.mpr fun b hb => graphic_of_tchar b (hall b hb))
  · intro hmem
    have hcomma := hall _ hmem
    revert hcomma
    decide

theorem parse_text (set : MethodSet) (h : Canonical set) : MethodSet.parse set.text = .ok set := by
  have hmem : ∀ method ∈ set.iter, canonicalize method = some method := fun method hmethod =>
    h.canonical method ((Finset.mem_sort _).mp hmethod)
  have hne : set.iter ≠ [] := by
    obtain ⟨method, hmethod⟩ := Finset.nonempty_iff_ne_empty.mpr h.nonempty
    exact List.ne_nil_of_mem ((Finset.mem_sort _).mpr hmethod)
  have hsplit : set.text.splitOn (ch ',') = set.iter :=
    List.splitOn_intercalate _ (fun method hmethod => (method_bytes method (hmem method hmethod)).2) hne
  have hitem : ∀ method ∈ set.iter, canonicalize (trim method) = some method := fun method hmethod => by
    rw [(method_bytes method (hmem method hmethod)).1, hmem method hmethod]
  rw [parse_methods_iff, hsplit]
  refine ⟨fun raw hraw _ => by rw [hitem raw hraw]; rfl, ?_, h.nonempty⟩
  have hsame : (set.iter.filterMap fun raw => canonicalize (trim raw)) = set.iter := by
    rw [List.filterMap_congr hitem]
    exact List.filterMap_some
  rw [hsame]
  exact (Finset.sort_toFinset set.methods _).symm

/-! ## The line with its methods -/

/-- `-X`, with what the set displays as. -/
def listing (set : MethodSet) : Item Text Flag := ⟨ascii "-X", .methods, some set.text⟩

theorem listing_fits (set : MethodSet) : commandLine.Fits (listing set) := by
  have hread : readFlag (ascii "-X") = .ok .methods := by decide
  exact ⟨hread, rfl⟩

theorem optionsOf_listing (items : List (Item Text Flag)) (set : MethodSet) :
    optionsOf (items ++ [listing set]) = { optionsOf items with methods := some set.text } := by
  simp [optionsOf, listing, lastValue_snoc, given_snoc, valuesOf_snoc]

theorem parseArgs_listing (args : List Text) (options : Options) (h : parseArgs args = .ok options)
    (set : MethodSet) :
    parseArgs (args ++ [ascii "-X", set.text]) = .ok { options with methods := some set.text } := by
  obtain ⟨items, rfl, hfits, hreadable, rfl⟩ := (parseArgs_ok_iff args options).mp h
  refine (parseArgs_ok_iff _ _).mpr ⟨items ++ [listing set], ?_, ?_, ?_, (optionsOf_listing items set).symm⟩
  · simp [wordsOf, listing, Item.words]
  · intro item hitem
    rcases List.mem_append.mp hitem with hitem | hitem
    · exact hfits item hitem
    · rw [List.mem_singleton.mp hitem]
      exact listing_fits set
  · intro item hitem
    rcases List.mem_append.mp hitem with hitem | hitem
    · exact hreadable item hitem
    · rw [List.mem_singleton.mp hitem]
      exact fun hnumeric => absurd hnumeric Bool.false_ne_true

theorem methodsOf_methodsOf (fixed : Option FixedRequest) (listed : MethodSet) :
    methodsOf fixed (methodsOf fixed listed) = methodsOf fixed listed := by
  unfold methodsOf
  cases fixed.bind fun fixed => canonicalize fixed.method <;> rfl

theorem configured_listing (parseUrl : Text → Option Url) (readFile : Text → Option Text)
    (options : Options) (grant : Grant) (h : Configured parseUrl readFile options grant) :
    Configured parseUrl readFile { options with methods := some grant.methods.text } grant := by
  have hcanonical := canonical_of_configured parseUrl readFile options grant h
  refine { h with methods := ⟨grant.methods, parse_text grant.methods hcanonical, ?_⟩ }
  obtain ⟨listed, -, hmethods⟩ := h.methods
  rw [hmethods, methodsOf_methodsOf]

/-- **Methods round trip**: the methods that a daemon says it permits, given to `-X` again, are the methods
that it permits. Its command line with them makes the same grant, whatever else stands on it. -/
theorem printed_methods_again (parseUrl : Text → Option Url) (readFile : Text → Option Text)
    (args : List Text) (options : Options) (grant : Grant)
    (h : configure parseUrl readFile args = .ok (options, grant)) :
    MethodSet.parse grant.methods.text = .ok grant.methods ∧
      configure parseUrl readFile (args ++ [ascii "-X", grant.methods.text]) =
        .ok ({ options with methods := some grant.methods.text }, grant) := by
  unfold configure at h ⊢
  simp only [bind_eq_ok, mapError_eq_ok, pure_eq_ok, Prod.mk.injEq] at h ⊢
  obtain ⟨options, hparse, grant, hbuild, rfl, rfl⟩ := h
  have hconfigured := (buildGrant_iff parseUrl readFile options grant).mp hbuild
  refine ⟨parse_text _ (canonical_of_configured parseUrl readFile options grant hconfigured), _,
    parseArgs_listing args options hparse grant.methods, grant, ?_, rfl, rfl⟩
  rw [buildGrant_iff]
  exact configured_listing parseUrl readFile options grant hconfigured

def postingArgs : List Text :=
  [ascii "-U", ascii "http://h/a/", ascii "-X", ascii "post, get,", ascii "-q"]

theorem printed_methods_again_posting :
    ∃ options grant, configure Join.parseAtHost (fun _ => none) postingArgs = .ok (options, grant) ∧
      configure Join.parseAtHost (fun _ => none) (postingArgs ++ [ascii "-X", grant.methods.text]) =
        .ok ({ options with methods := some grant.methods.text }, grant) := by
  have hok : (configure Join.parseAtHost (fun _ => none) postingArgs).toOption.isSome = true := by
    decide +kernel
  cases hconfigure : configure Join.parseAtHost (fun _ => none) postingArgs with
  | error stop =>
    rw [hconfigure] at hok
    cases hok
  | ok configured =>
    obtain ⟨options, grant⟩ := configured
    exact ⟨options, grant, rfl,
      (printed_methods_again Join.parseAtHost (fun _ => none) postingArgs options grant hconfigure).2⟩

end Capcurl.Cli.Capcurld
