import Capcurl.Lib.Bytes
import Capcurl.Lib.Checks
import Mathlib.Data.Nat.Init

/-! # Command lines

Options in any order, some of which take the next argument as their value. A program says how it reads
an argument as an option, and what the option does with its settings.
-/

namespace Capcurl.Lib

variable {α ε σ F : Type}

/-- Why a program has no settings of its command line. -/
inductive Stop where
  /-- It has printed the usage, and exits. -/
  | help
  | failed (why : Text)
  deriving DecidableEq, Repr

/-- What an option does with the settings: by itself, or with a value. -/
inductive OptionKind (α ε σ : Type) where
  | alone (set : σ → Except ε σ)
  | valued (set : α → σ → Except ε σ)

/-- The options of a program. -/
structure CommandLine (α ε σ F : Type) where
  /-- The option that an argument is, or why it is none. -/
  read : α → Except ε F
  kind : F → OptionKind α ε σ
  /-- The error for an option that is the last argument, and takes a value. -/
  missing : F → ε

variable (line : CommandLine α ε σ F)

def CommandLine.parse (settings : σ) : List α → Except ε σ
  | [] => return settings
  | arg :: args => do
    let option ← line.read arg
    match line.kind option with
    | .alone set => do
      let settings ← set settings
      CommandLine.parse settings args
    | .valued set =>
      match args with
      | [] => throw (line.missing option)
      | value :: args => do
        let settings ← set value settings
        CommandLine.parse settings args

/-! ## Items -/

/-- An option as it stands on the line, with its value if it takes one. -/
structure Item (α F : Type) where
  arg : α
  option : F
  value : Option α

def Item.words (item : Item α F) : List α := item.arg :: item.value.toList

def wordsOf (items : List (Item α F)) : List α := items.flatMap Item.words

theorem wordsOf_append (items more : List (Item α F)) : wordsOf (items ++ more) = wordsOf items ++ wordsOf more := by
  unfold wordsOf
  exact List.flatMap_append

/-- The argument is that option, and it has a value just when it takes one. -/
def CommandLine.Fits (item : Item α F) : Prop :=
  line.read item.arg = .ok item.option ∧
    match line.kind item.option with
    | .alone _ => item.value = none
    | .valued _ => item.value.isSome

/-- What an item does. An item that does not fit does nothing. -/
def CommandLine.act (settings : σ) (item : Item α F) : Except ε σ :=
  match line.kind item.option, item.value with
  | .alone set, none => set settings
  | .valued set, some value => set value settings
  | _, _ => return settings

/-! ## Reading a line item by item -/

theorem parse_item (settings : σ) (item : Item α F) (args : List α) (h : line.Fits item) :
    line.parse settings (item.words ++ args) =
      line.act settings item >>= fun settings => line.parse settings args := by
  obtain ⟨arg, option, value⟩ := item
  obtain ⟨hread, hvalue⟩ := h
  unfold Item.words CommandLine.act
  simp only at hread hvalue ⊢
  cases hkind : line.kind option with
  | alone set =>
    rw [hkind] at hvalue
    obtain rfl : value = none := hvalue
    simp only [Option.toList_none, List.cons_append, List.nil_append, CommandLine.parse, hread, ok_bind, hkind]
  | valued set =>
    rw [hkind] at hvalue
    obtain ⟨value, rfl⟩ := Option.isSome_iff_exists.mp hvalue
    simp only [Option.toList_some, List.cons_append, List.nil_append, CommandLine.parse, hread, ok_bind, hkind]

theorem parse_items (settings : σ) (items : List (Item α F)) (args : List α)
    (h : ∀ item ∈ items, line.Fits item) :
    line.parse settings (wordsOf items ++ args) =
      items.foldlM line.act settings >>= fun settings => line.parse settings args := by
  induction items generalizing settings with
  | nil => rfl
  | cons item items ih =>
    have hwords : wordsOf (item :: items) ++ args = item.words ++ (wordsOf items ++ args) := by
      simp [wordsOf]
    rw [hwords, parse_item line settings item _ (h item List.mem_cons_self), List.foldlM_cons, bind_assoc]
    congr 1
    funext settings'
    exact ih settings' fun item' hitem => h item' (List.mem_cons_of_mem item hitem)

/-- Why a line stops being one: an argument that is no option, or an option that lacks its value. -/
inductive CommandLine.Breaks : List α → ε → Prop where
  | unknown {arg : α} {rest : List α} {e : ε} : line.read arg = .error e → Breaks (arg :: rest) e
  | missing {arg : α} {option : F} {set : α → σ → Except ε σ} : line.read arg = .ok option →
    line.kind option = .valued set → Breaks [arg] (line.missing option)

theorem parse_breaks (settings : σ) (args : List α) (e : ε) (h : line.Breaks args e) :
    line.parse settings args = .error e := by
  cases h with
  | unknown hread =>
    unfold CommandLine.parse
    rw [hread]
    rfl
  | missing hread hkind =>
    unfold CommandLine.parse
    rw [hread, ok_bind]
    simp only [hkind]
    rfl

theorem line_splits (args : List α) :
    ∃ items rest, args = wordsOf items ++ rest ∧ (∀ item ∈ items, line.Fits item) ∧
      (rest = [] ∨ ∃ e, line.Breaks rest e) := by
  induction hlen : args.length using Nat.strong_induction_on generalizing args with
  | _ n ih =>
    have hmore : ∀ (item : Item α F) (args' : List α), args = item.words ++ args' → line.Fits item →
        args'.length < n → ∃ items rest, args = wordsOf items ++ rest ∧ (∀ item ∈ items, line.Fits item) ∧
          (rest = [] ∨ ∃ e, line.Breaks rest e) := by
      intro item args' hargs hfits hlt
      obtain ⟨items, rest, hsplit, hall, hrest⟩ := ih args'.length hlt args' rfl
      refine ⟨item :: items, rest, ?_, List.forall_mem_cons.mpr ⟨hfits, hall⟩, hrest⟩
      rw [hargs, hsplit]
      simp [wordsOf]
    cases args with
    | nil => exact ⟨[], [], rfl, by simp, .inl rfl⟩
    | cons arg args =>
      rw [List.length_cons] at hlen
      cases hread : line.read arg with
      | error e => exact ⟨[], arg :: args, rfl, by simp, .inr ⟨e, .unknown hread⟩⟩
      | ok option =>
        cases hkind : line.kind option with
        | alone set =>
          exact hmore ⟨arg, option, none⟩ args rfl ⟨hread, by simp only [hkind]⟩ (by omega)
        | valued set =>
          cases args with
          | nil => exact ⟨[], [arg], rfl, by simp, .inr ⟨_, .missing hread hkind⟩⟩
          | cons value args =>
            rw [List.length_cons] at hlen
            exact hmore ⟨arg, option, some value⟩ args rfl ⟨hread, by simp only [hkind]; rfl⟩ (by omega)

theorem parse_ok_iff (settings settings' : σ) (args : List α) :
    line.parse settings args = .ok settings' ↔
      ∃ items, args = wordsOf items ∧ (∀ item ∈ items, line.Fits item) ∧
        items.foldlM line.act settings = .ok settings' := by
  constructor
  · intro h
    obtain ⟨items, rest, rfl, hfits, hrest⟩ := line_splits line args
    rw [parse_items line settings items rest hfits, bind_eq_ok] at h
    obtain ⟨settings'', hacts, hdone⟩ := h
    rcases hrest with rfl | ⟨e, hbreaks⟩
    · rw [← Except.ok.inj hdone]
      exact ⟨items, List.append_nil _, hfits, hacts⟩
    · rw [parse_breaks line _ _ _ hbreaks] at hdone
      cases hdone
  · rintro ⟨items, rfl, hfits, hacts⟩
    rw [← List.append_nil (wordsOf items), parse_items line settings items [] hfits, hacts]
    rfl

theorem foldlM_error {β : Type} (f : σ → β → Except ε σ) (settings : σ) (items : List β) (e : ε)
    (h : items.foldlM f settings = .error e) :
    ∃ pre item post settings', items = pre ++ item :: post ∧ pre.foldlM f settings = .ok settings' ∧
      f settings' item = .error e := by
  induction items generalizing settings with
  | nil => cases h
  | cons item items ih =>
    rw [List.foldlM_cons, bind_eq_error] at h
    rcases h with h | ⟨settings', hitem, h⟩
    · exact ⟨[], item, items, settings, rfl, rfl, h⟩
    · obtain ⟨pre, bad, post, settings'', rfl, hpre, hbad⟩ := ih settings' h
      refine ⟨item :: pre, bad, post, settings'', rfl, ?_, hbad⟩
      rw [List.foldlM_cons, hitem, ok_bind]
      exact hpre

theorem parse_error_iff (settings : σ) (args : List α) (e : ε) :
    line.parse settings args = .error e ↔
      ∃ items rest settings', args = wordsOf items ++ rest ∧ (∀ item ∈ items, line.Fits item) ∧
        items.foldlM line.act settings = .ok settings' ∧
        (line.Breaks rest e ∨ ∃ item more, line.Fits item ∧ rest = item.words ++ more ∧
          line.act settings' item = .error e) := by
  constructor
  · intro h
    obtain ⟨items, rest, rfl, hfits, hrest⟩ := line_splits line args
    rw [parse_items line settings items rest hfits, bind_eq_error] at h
    rcases h with h | ⟨settings', hacts, h⟩
    · obtain ⟨pre, item, post, settings', rfl, hpre, hbad⟩ := foldlM_error line.act settings items e h
      refine ⟨pre, item.words ++ (wordsOf post ++ rest), settings', by simp [wordsOf], ?_, hpre, .inr
        ⟨item, _, hfits item (by simp), rfl, hbad⟩⟩
      exact fun item' hitem => hfits item' (by simp [hitem])
    · refine ⟨items, rest, settings', rfl, hfits, hacts, .inl ?_⟩
      rcases hrest with rfl | ⟨e', hbreaks⟩
      · cases h
      · rw [parse_breaks line _ _ _ hbreaks, Except.error.injEq] at h
        exact h ▸ hbreaks
  · rintro ⟨items, rest, settings', rfl, hfits, hacts, hrest⟩
    rw [parse_items line settings items rest hfits, hacts, ok_bind]
    rcases hrest with hbreaks | ⟨item, more, hitem, rfl, hbad⟩
    · exact parse_breaks line _ _ _ hbreaks
    · rw [parse_item line settings' item more hitem, hbad]
      rfl

/-! ## What a line means -/

section Meaning

/-- Each item adds to what the items before it mean, if it may stand after them. -/
def CommandLine.Means (meaning : List (Item α F) → σ) (May : List (Item α F) → Item α F → Prop) : Prop :=
  ∀ items item, line.Fits item → ∀ settings,
    line.act (meaning items) item = .ok settings ↔ May items item ∧ settings = meaning (items ++ [item])

/-- Every item may stand where it stands. -/
def AllMay (May : List (Item α F) → Item α F → Prop) (items : List (Item α F)) : Prop :=
  ∀ pre item post, items = pre ++ item :: post → May pre item

theorem allMay_snoc (May : List (Item α F) → Item α F → Prop) (items : List (Item α F)) (item : Item α F) :
    AllMay May (items ++ [item]) ↔ AllMay May items ∧ May items item := by
  constructor
  · intro h
    refine ⟨fun pre item' post hsplit => ?_, h items item [] rfl⟩
    exact h pre item' (post ++ [item]) (by rw [hsplit, List.append_assoc, List.cons_append])
  · rintro ⟨hbefore, hlast⟩ pre item' post hsplit
    rcases List.eq_nil_or_concat post with rfl | ⟨post, last, rfl⟩
    · obtain ⟨rfl, hitem⟩ := List.append_inj' hsplit rfl
      rw [← List.singleton_inj.mp hitem]
      exact hlast
    · rw [List.concat_eq_append, ← List.cons_append, ← List.append_assoc] at hsplit
      exact hbefore pre item' post (List.append_inj' hsplit rfl).1

theorem allMay_forall (P : Item α F → Prop) (items : List (Item α F)) :
    AllMay (fun _ item => P item) items ↔ ∀ item ∈ items, P item := by
  constructor
  · intro h item hitem
    obtain ⟨pre, post, hsplit⟩ := List.append_of_mem hitem
    exact h pre item post hsplit
  · rintro h pre item post rfl
    exact h item (by simp)

variable (meaning : List (Item α F) → σ) (May : List (Item α F) → Item α F → Prop)
  (hmeans : line.Means meaning May)
include hmeans

theorem acts_meaning (items : List (Item α F)) (hfits : ∀ item ∈ items, line.Fits item) (settings : σ) :
    items.foldlM line.act (meaning []) = .ok settings ↔ AllMay May items ∧ settings = meaning items := by
  induction items using List.reverseRecOn generalizing settings with
  | nil =>
    have hnone : AllMay May [] := fun pre item post hsplit => by simp at hsplit
    exact ⟨fun h => ⟨hnone, (Except.ok.inj h).symm⟩, fun h => congrArg _ h.2.symm⟩
  | append_singleton items item ih =>
    have hbefore := ih fun item' hitem => hfits item' (List.mem_append_left _ hitem)
    have hlast := hmeans items item (hfits item (by simp))
    rw [List.foldlM_append, bind_eq_ok, allMay_snoc]
    simp only [List.foldlM_cons, List.foldlM_nil, bind_pure, hbefore]
    constructor
    · rintro ⟨_, ⟨hall, rfl⟩, hact⟩
      obtain ⟨hmay, rfl⟩ := (hlast settings).mp hact
      exact ⟨⟨hall, hmay⟩, rfl⟩
    · rintro ⟨⟨hall, hmay⟩, rfl⟩
      exact ⟨_, ⟨hall, rfl⟩, (hlast _).mpr ⟨hmay, rfl⟩⟩

theorem parse_means (args : List α) (settings : σ) :
    line.parse (meaning []) args = .ok settings ↔
      ∃ items, args = wordsOf items ∧ (∀ item ∈ items, line.Fits item) ∧ AllMay May items ∧
        settings = meaning items := by
  rw [parse_ok_iff]
  constructor
  · rintro ⟨items, hargs, hfits, hacts⟩
    exact ⟨items, hargs, hfits, (acts_meaning line meaning May hmeans items hfits settings).mp hacts⟩
  · rintro ⟨items, hargs, hfits, hmeant⟩
    exact ⟨items, hargs, hfits, (acts_meaning line meaning May hmeans items hfits settings).mpr hmeant⟩

theorem parse_wrong (Wrong : List (Item α F) → Item α F → ε → Prop)
    (hwrong : ∀ items item, line.Fits item → ∀ e,
      line.act (meaning items) item = .error e ↔ Wrong items item e)
    (args : List α) (e : ε) :
    line.parse (meaning []) args = .error e ↔
      ∃ items rest, args = wordsOf items ++ rest ∧ (∀ item ∈ items, line.Fits item) ∧ AllMay May items ∧
        (line.Breaks rest e ∨
          ∃ item more, line.Fits item ∧ rest = item.words ++ more ∧ Wrong items item e) := by
  rw [parse_error_iff]
  constructor
  · rintro ⟨items, rest, settings, hargs, hfits, hacts, hrest⟩
    obtain ⟨hall, rfl⟩ := (acts_meaning line meaning May hmeans items hfits settings).mp hacts
    refine ⟨items, rest, hargs, hfits, hall, hrest.imp_right ?_⟩
    rintro ⟨item, more, hitem, hwords, hact⟩
    exact ⟨item, more, hitem, hwords, (hwrong items item hitem e).mp hact⟩
  · rintro ⟨items, rest, hargs, hfits, hall, hrest⟩
    have hacts := (acts_meaning line meaning May hmeans items hfits _).mpr ⟨hall, rfl⟩
    refine ⟨items, rest, _, hargs, hfits, hacts, hrest.imp_right ?_⟩
    rintro ⟨item, more, hitem, hwords, hbad⟩
    exact ⟨item, more, hitem, hwords, (hwrong items item hitem e).mpr hbad⟩

end Meaning

/-! ## Values -/

section Values

variable [DecidableEq F]

/-- The values that an option is given, in order. -/
def valuesOf (flag : F) (items : List (Item α F)) : List α :=
  items.filterMap fun item => if item.option = flag then item.value else none

def lastValue (flag : F) (items : List (Item α F)) : Option α := (valuesOf flag items).getLast?

def given (flag : F) (items : List (Item α F)) : Bool := items.any fun item => item.option == flag

/-- An option, as often as it is given a value, or stands by itself. -/
def said (arg : α) (flag : F) (values : List (Option α)) : List (Item α F) :=
  values.map fun value => ⟨arg, flag, value⟩

theorem mem_wordsOf_valuesOf (flag : F) (items : List (Item α F)) (value : α) (h : value ∈ valuesOf flag items) :
    value ∈ wordsOf items := by
  obtain ⟨item, hitem, hvalue⟩ := List.mem_filterMap.mp h
  refine List.mem_flatMap.mpr ⟨item, hitem, List.mem_cons_of_mem _ ?_⟩
  split at hvalue
  · exact Option.mem_toList.mpr hvalue
  · cases hvalue

omit [DecidableEq F] in
theorem wordsOf_said (arg : α) (flag : F) (values : List (Option α)) (word : α)
    (h : word ∈ wordsOf (said arg flag values)) : word = arg ∨ some word ∈ values := by
  obtain ⟨item, hitem, hword⟩ := List.mem_flatMap.mp h
  obtain ⟨value, hvalue, rfl⟩ := List.mem_map.mp hitem
  rcases List.mem_cons.mp hword with hword | hword
  · exact .inl hword
  · obtain rfl : value = some word := Option.mem_toList.mp hword
    exact .inr hvalue

theorem valuesOf_append (flag : F) (items more : List (Item α F)) :
    valuesOf flag (items ++ more) = valuesOf flag items ++ valuesOf flag more := by
  unfold valuesOf
  exact List.filterMap_append

theorem given_append (flag : F) (items more : List (Item α F)) :
    given flag (items ++ more) = (given flag items || given flag more) := by
  unfold given
  exact List.any_append

theorem valuesOf_said (flag flag' : F) (arg : α) (values : List (Option α)) :
    valuesOf flag (said arg flag' values) = if flag' = flag then values.filterMap id else [] := by
  unfold valuesOf said
  rw [List.filterMap_map]
  split
  · rename_i hflag
    simp only [Function.comp_def, hflag, if_true]
    rfl
  · rename_i hflag
    simp [hflag]

theorem given_said (flag flag' : F) (arg : α) (values : List (Option α)) :
    given flag (said arg flag' values) = (flag' == flag && !values.isEmpty) := by
  unfold given said
  cases values with
  | nil => simp
  | cons value values => by_cases hflag : flag' = flag <;> simp [hflag]

theorem valuesOf_snoc (flag : F) (items : List (Item α F)) (item : Item α F) :
    valuesOf flag (items ++ [item]) =
      valuesOf flag items ++ if item.option = flag then item.value.toList else [] := by
  unfold valuesOf
  rw [List.filterMap_append]
  congr 1
  by_cases hflag : item.option = flag
  · cases hvalue : item.value <;> simp [hflag, hvalue]
  · simp [hflag]

theorem lastValue_snoc (flag : F) (items : List (Item α F)) (arg value : α) (option : F) :
    lastValue flag (items ++ [⟨arg, option, some value⟩]) =
      if option = flag then some value else lastValue flag items := by
  unfold lastValue
  rw [valuesOf_snoc]
  by_cases hflag : option = flag <;> simp [hflag]

theorem lastValue_alone (flag : F) (items : List (Item α F)) (arg : α) (option : F) :
    lastValue flag (items ++ [⟨arg, option, none⟩]) = lastValue flag items := by
  unfold lastValue
  rw [valuesOf_snoc]
  by_cases hflag : option = flag <;> simp [hflag]

theorem given_snoc (flag : F) (items : List (Item α F)) (item : Item α F) :
    given flag (items ++ [item]) = (given flag items || item.option == flag) := by
  simp [given]

end Values

end Capcurl.Lib
