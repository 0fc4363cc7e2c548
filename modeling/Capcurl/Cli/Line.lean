import Capcurl.Cli.Capcurld

/-! # What a command line of the daemon says -/

namespace Capcurl.Cli.Capcurld

open Lib Policy

/-! ## What a line says -/

/-- The last value of every option that has one value, and all values of `-H`. -/
def optionsOf (items : List (Item Text Flag)) : Options where
  base := lastValue .base items
  socket := lastValue .socket items
  oneShot := given .oneShot items
  methods := lastValue .methods items
  injections := valuesOf .injection items
  headerPolicy := lastValue .headerPolicy items
  fixed := lastValue .fixed items
  owner := lastValue .owner items
  mode := lastValue .mode items
  allowQuery := !given .noQuery items
  allowEncodedSeparators := given .encodedSeparators items
  timeout := ((lastValue .timeout items).bind parseU64).getD 30
  maxRequestBody := (lastValue .maxRequestBody items).bind parseU64
  maxResponseBody := (lastValue .maxResponseBody items).bind parseU64

/-- The options that take a number. -/
def isNumeric : Flag → Bool
  | .timeout | .maxRequestBody | .maxResponseBody => true
  | _ => false

/-- A number is one. -/
def Readable (item : Item Text Flag) : Prop :=
  isNumeric item.option = true → ∀ value, item.value = some value → (parseU64 value).isSome = true

/-! ## One more item -/

theorem act_alone (items : List (Item Text Flag)) (arg : Text) (flag : Flag) (set : Options → Except Stop Options)
    (hkind : flagKind flag = .alone set)
    (hset : set (optionsOf items) = .ok (optionsOf (items ++ [⟨arg, flag, none⟩]))) (options : Options) :
    commandLine.act (optionsOf items) ⟨arg, flag, none⟩ = .ok options ↔
      Readable ⟨arg, flag, none⟩ ∧ options = optionsOf (items ++ [⟨arg, flag, none⟩]) := by
  have hact : commandLine.act (optionsOf items) ⟨arg, flag, none⟩ = set (optionsOf items) := by
    simp only [CommandLine.act, commandLine, hkind]
  have hreadable : Readable ⟨arg, flag, none⟩ := fun _ value hvalue => absurd hvalue.symm (Option.some_ne_none value)
  rw [hact, hset, Except.ok.injEq]
  exact ⟨fun h => ⟨hreadable, h.symm⟩, fun h => h.2.symm⟩

theorem act_valued (items : List (Item Text Flag)) (arg value : Text) (flag : Flag)
    (set : Text → Options → Except Stop Options) (hkind : flagKind flag = .valued set)
    (hany : isNumeric flag = false)
    (hset : set value (optionsOf items) = .ok (optionsOf (items ++ [⟨arg, flag, some value⟩])))
    (options : Options) :
    commandLine.act (optionsOf items) ⟨arg, flag, some value⟩ = .ok options ↔
      Readable ⟨arg, flag, some value⟩ ∧ options = optionsOf (items ++ [⟨arg, flag, some value⟩]) := by
  have hact : commandLine.act (optionsOf items) ⟨arg, flag, some value⟩ = set value (optionsOf items) := by
    simp only [CommandLine.act, commandLine, hkind]
  have hreadable : Readable ⟨arg, flag, some value⟩ := by
    intro hnumeric
    rw [hany] at hnumeric
    cases hnumeric
  rw [hact, hset, Except.ok.injEq]
  exact ⟨fun h => ⟨hreadable, h.symm⟩, fun h => h.2.symm⟩

theorem act_number (items : List (Item Text Flag)) (arg value why : Text) (flag : Flag)
    (set : Options → UInt64 → Options) (hkind : flagKind flag = number why set)
    (hnumeric : isNumeric flag = true)
    (hset : ∀ n, parseU64 value = some n →
      set (optionsOf items) n = optionsOf (items ++ [⟨arg, flag, some value⟩]))
    (options : Options) :
    commandLine.act (optionsOf items) ⟨arg, flag, some value⟩ = .ok options ↔
      Readable ⟨arg, flag, some value⟩ ∧ options = optionsOf (items ++ [⟨arg, flag, some value⟩]) := by
  have hreadable : Readable ⟨arg, flag, some value⟩ ↔ (parseU64 value).isSome = true := by
    constructor
    · exact fun h => h hnumeric value rfl
    · intro h _ value' hvalue
      rw [← Option.some.inj hvalue]
      exact h
  rw [hreadable]
  simp only [CommandLine.act, commandLine, hkind, number]
  cases hparse : parseU64 value with
  | none => exact iff_of_false (fun h => by cases h) fun h => absurd h.1 Bool.false_ne_true
  | some n =>
    simp only [hset n hparse, pure_eq_ok]
    exact ⟨fun h => ⟨rfl, h.symm⟩, fun h => h.2.symm⟩

theorem act_options (items : List (Item Text Flag)) (item : Item Text Flag) (h : commandLine.Fits item)
    (options : Options) :
    commandLine.act (optionsOf items) item = .ok options ↔
      Readable item ∧ options = optionsOf (items ++ [item]) := by
  obtain ⟨arg, flag, value⟩ := item
  obtain ⟨-, hvalue⟩ := h
  simp only at hvalue
  cases value with
  | none =>
    cases flag with
    | oneShot | noQuery | encodedSeparators =>
      exact act_alone items arg _ _ rfl (by
        simp [pure, Except.pure, optionsOf, lastValue_alone, given_snoc, valuesOf_snoc]) options
    | _ => exact absurd hvalue Bool.false_ne_true
  | some value =>
    cases flag with
    | oneShot | noQuery | encodedSeparators => exact absurd hvalue (Option.some_ne_none value)
    | timeout | maxRequestBody | maxResponseBody =>
      exact act_number items arg value _ _ _ rfl rfl (fun n hn => by
        simp [optionsOf, lastValue_snoc, given_snoc, valuesOf_snoc, hn]) options
    | _ =>
      exact act_valued items arg value _ _ rfl rfl (by
        simp [pure, Except.pure, optionsOf, lastValue_snoc, given_snoc, valuesOf_snoc]) options

theorem optionsOf_means : commandLine.Means optionsOf fun _ item => Readable item :=
  fun items item h options => act_options items item h options

theorem parseArgs_ok_iff (args : List Text) (options : Options) :
    parseArgs args = .ok options ↔
      ∃ items, args = wordsOf items ∧ (∀ item ∈ items, commandLine.Fits item) ∧
        (∀ item ∈ items, Readable item) ∧ options = optionsOf items := by
  have hline := parse_means commandLine optionsOf _ optionsOf_means args options
  simp only [allMay_forall] at hline
  exact hline

/-! ## What is wrong with a line -/

/-- The error of an option whose value is no number. -/
def numberError : Flag → Text
  | .timeout => ascii "-t takes a number of seconds"
  | flag => byteCount flag

theorem act_error_iff (options : Options) (item : Item Text Flag) (h : commandLine.Fits item) (e : Stop) :
    commandLine.act options item = .error e ↔ ¬ Readable item ∧ e = .failed (numberError item.option) := by
  obtain ⟨arg, flag, value⟩ := item
  obtain ⟨-, hvalue⟩ := h
  simp only at hvalue
  have hnumber : ∀ value why (set : Options → UInt64 → Options), flagKind flag = number why set →
      isNumeric flag = true → why = numberError flag →
      (commandLine.act options ⟨arg, flag, some value⟩ = .error e ↔
        ¬ Readable ⟨arg, flag, some value⟩ ∧ e = .failed (numberError flag)) := by
    intro value why set hkind hnumeric hwhy
    simp only [CommandLine.act, commandLine, hkind, number, Readable, hnumeric, Option.some.injEq,
      forall_eq', true_imp_iff]
    cases parseU64 value with
    | none => simp [hwhy, throw, throwThe, MonadExceptOf.throw, eq_comm]
    | some n => simp [pure, Except.pure]
  have hfine : ∀ options', commandLine.act options ⟨arg, flag, value⟩ = .ok options' → isNumeric flag = false →
      (commandLine.act options ⟨arg, flag, value⟩ = .error e ↔
        ¬ Readable ⟨arg, flag, value⟩ ∧ e = .failed (numberError flag)) := by
    intro options' hact hany
    have hreadable : Readable ⟨arg, flag, value⟩ := by
      intro hnumeric
      rw [hany] at hnumeric
      cases hnumeric
    rw [hact]
    exact ⟨fun h => (by cases h), fun h => absurd hreadable h.1⟩
  cases value with
  | none =>
    cases flag with
    | oneShot | noQuery | encodedSeparators => exact hfine _ rfl rfl
    | _ => exact absurd hvalue Bool.false_ne_true
  | some value =>
    cases flag with
    | oneShot | noQuery | encodedSeparators => exact absurd hvalue (Option.some_ne_none value)
    | timeout | maxRequestBody | maxResponseBody => exact hnumber value _ _ rfl rfl rfl
    | _ => exact hfine _ rfl rfl

theorem parseArgs_words (items : List (Item Text Flag)) (h : ∀ item ∈ items, commandLine.Fits item)
    (options : Options) :
    parseArgs (wordsOf items) = .ok options ↔ (∀ item ∈ items, Readable item) ∧ options = optionsOf items := by
  have hacts := acts_meaning commandLine optionsOf _ optionsOf_means items h options
  rw [allMay_forall] at hacts
  unfold parseArgs
  rw [← hacts, ← List.append_nil (wordsOf items), parse_items commandLine _ items [] h]
  exact Eq.congr_left (bind_pure _)

theorem optionsOf_perm (items items' : List (Item Text Flag)) (hperm : items.Perm items')
    (hvalues : ∀ flag, valuesOf flag items = valuesOf flag items') : optionsOf items = optionsOf items' := by
  have hlast : ∀ flag, lastValue flag items = lastValue flag items' := fun flag => by
    unfold lastValue
    rw [hvalues flag]
  have hgiven : ∀ flag, given flag items = given flag items' := fun flag => by
    unfold given
    exact hperm.any_eq
  simp only [optionsOf, hlast, hgiven, hvalues]

/-- **The meaning of a line**: `parse_args` accepts the lines that are options, each with its value if it
takes one and a number where it has to be one, and what it returns is the last value of each option, all
values of `-H`, and which of the others stand on the line; so only the order of the values of one option
matters. Its error is that of the first place where a line is none. -/
theorem line_meaning (args : List Text) :
    (∀ options, parseArgs args = .ok options ↔
      ∃ items, args = wordsOf items ∧ (∀ item ∈ items, commandLine.Fits item) ∧
        (∀ item ∈ items, Readable item) ∧ options = optionsOf items) ∧
    (∀ e, parseArgs args = .error e ↔
      ∃ items rest, args = wordsOf items ++ rest ∧ (∀ item ∈ items, commandLine.Fits item) ∧
        (∀ item ∈ items, Readable item) ∧
        (commandLine.Breaks rest e ∨ ∃ item more, commandLine.Fits item ∧ rest = item.words ++ more ∧
          ¬ Readable item ∧ e = .failed (numberError item.option))) ∧
    ∀ items items' : List (Item Text Flag), items.Perm items' →
      (∀ flag, valuesOf flag items = valuesOf flag items') →
      (∀ item ∈ items, commandLine.Fits item) → ∀ options,
        parseArgs (wordsOf items) = .ok options → parseArgs (wordsOf items') = .ok options := by
  refine ⟨parseArgs_ok_iff args, fun e => ?_, ?_⟩
  · have hline := parse_wrong commandLine optionsOf _ optionsOf_means
      (fun _ item e => ¬ Readable item ∧ e = .failed (numberError item.option))
      (fun items item h e => act_error_iff (optionsOf items) item h e) args e
    simp only [allMay_forall] at hline
    exact hline
  · intro items items' hperm hvalues hfits options h
    rw [parseArgs_words items hfits] at h
    rw [parseArgs_words items' fun item hitem => hfits item (hperm.mem_iff.mpr hitem)]
    refine ⟨fun item hitem => h.1 item (hperm.mem_iff.mpr hitem), ?_⟩
    rw [h.2, optionsOf_perm items items' hperm hvalues]

end Capcurl.Cli.Capcurld
