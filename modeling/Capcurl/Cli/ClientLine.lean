import Capcurl.Cli.Client

/-! # What a command line of the client says -/

namespace Capcurl.Cli.Client

open Lib Http

variable (readFile : Text → Except Text Bytes)

/-! ## What a line says -/

def targetOf (item : Item Text Flag) : Option Text :=
  match item.option with
  | .target text => some text
  | _ => none

/-- The last value of every option that has one value, all values of `-H`, and the target. -/
def optionsOf (items : List (Item Text Flag)) : Options where
  socket := lastValue .socket items
  method := (lastValue .method items).getD (ascii "GET")
  headers := (valuesOf .header items).filterMap fun spec => (parseHeader spec).toOption
  body := ((lastValue .data items).bind fun spec => (readData readFile spec).toOption).getD []
  includeHeaders := given .includeHeaders items
  output := lastValue .output items
  failOnError := given .failOnError items
  target := (items.findSome? targetOf).getD (ascii "/")

def settingsOf (items : List (Item Text Flag)) : Settings :=
  ⟨optionsOf readFile items, (items.findSome? targetOf).isSome⟩

/-- A header has a colon, a file can be read even where a later `-d` replaces it, and there is one target. -/
def May (items : List (Item Text Flag)) (item : Item Text Flag) : Prop :=
  match item.option, item.value with
  | .header, some spec => ∃ field, parseHeader spec = .ok field
  | .data, some spec => ∃ body, readData readFile spec = .ok body
  | .target _, _ => items.findSome? targetOf = none
  | _, _ => True

/-- What is wrong with an item that may not stand where it does. -/
def Wrong (items : List (Item Text Flag)) (item : Item Text Flag) (e : Stop) : Prop :=
  match item.option, item.value with
  | .header, some spec => parseHeader spec = .error e
  | .data, some spec => readData readFile spec = .error e
  | .target _, _ =>
    (items.findSome? targetOf).isSome = true ∧ e = .failed (ascii "only one target may be given")
  | _, _ => False

/-! ## One more item -/

section Act

variable (items : List (Item Text Flag)) (item : Item Text Flag)

theorem act_done (hmay : May readFile items item)
    (hact : (commandLine readFile).act (settingsOf readFile items) item =
      .ok (settingsOf readFile (items ++ [item])))
    (settings : Settings) :
    (commandLine readFile).act (settingsOf readFile items) item = .ok settings ↔
      May readFile items item ∧ settings = settingsOf readFile (items ++ [item]) := by
  rw [hact, Except.ok.injEq]
  exact ⟨fun h => ⟨hmay, h.symm⟩, fun h => h.2.symm⟩

theorem act_failed (e : Stop) (hmay : ¬ May readFile items item)
    (hact : (commandLine readFile).act (settingsOf readFile items) item = .error e) (settings : Settings) :
    (commandLine readFile).act (settingsOf readFile items) item = .ok settings ↔
      May readFile items item ∧ settings = settingsOf readFile (items ++ [item]) := by
  rw [hact]
  exact iff_of_false nofun fun h => hmay h.1

end Act

theorem settingsOf_means : (commandLine readFile).Means (settingsOf readFile) (May readFile) := by
  intro items item hfits settings
  obtain ⟨arg, flag, value⟩ := item
  obtain ⟨-, hvalue⟩ := hfits
  simp only at hvalue
  cases value with
  | none =>
    cases flag with
    | includeHeaders | failOnError =>
      refine act_done readFile items _ ?_ ?_ settings
      · trivial
      · simp [CommandLine.act, commandLine, flagKind, setting, settingsOf, optionsOf, lastValue_alone, given_snoc,
          valuesOf_snoc, targetOf, pure, Except.pure]
    | target text =>
      cases hseen : items.findSome? targetOf with
      | none =>
        refine act_done readFile items _ ?_ ?_ settings
        · exact hseen
        · simp [CommandLine.act, commandLine, flagKind, setTarget, settingsOf, optionsOf, lastValue_alone,
            given_snoc, valuesOf_snoc, targetOf, pure, Except.pure, hseen]
      | some seen =>
        refine act_failed readFile items _ (.failed (ascii "only one target may be given")) ?_ ?_ settings
        · simp [May, hseen]
        · simp [CommandLine.act, commandLine, flagKind, setTarget, settingsOf, hseen]
          rfl
    | _ => exact absurd hvalue Bool.false_ne_true
  | some value =>
    cases flag with
    | includeHeaders | failOnError | target => exact absurd hvalue (Option.some_ne_none value)
    | socket | method | output =>
      refine act_done readFile items _ ?_ ?_ settings
      · trivial
      · simp [CommandLine.act, commandLine, flagKind, setting, settingsOf, optionsOf, lastValue_snoc, given_snoc,
          valuesOf_snoc, targetOf, pure, Except.pure]
    | header =>
      cases hparse : parseHeader value with
      | ok field =>
        have hfield : (parseHeader value).toOption = some field := congrArg Except.toOption hparse
        refine act_done readFile items _ ?_ ?_ settings
        · exact ⟨field, hparse⟩
        · simp [CommandLine.act, commandLine, flagKind, setting, settingsOf, optionsOf, lastValue_snoc,
            given_snoc, valuesOf_snoc, targetOf, pure, Except.pure, hparse, ok_bind]
          rw [List.filterMap_cons, hfield]
          rfl
      | error e =>
        refine act_failed readFile items _ e ?_ ?_ settings
        · simp [May, hparse]
        · simp [CommandLine.act, commandLine, flagKind, hparse, error_bind]
    | data =>
      cases hread : readData readFile value with
      | ok body =>
        refine act_done readFile items _ ?_ ?_ settings
        · exact ⟨body, hread⟩
        · simp [CommandLine.act, commandLine, flagKind, setting, settingsOf, optionsOf, lastValue_snoc,
            given_snoc, valuesOf_snoc, targetOf, pure, Except.pure, hread, ok_bind]
          rfl
      | error e =>
        refine act_failed readFile items _ e ?_ ?_ settings
        · simp [May, hread]
        · simp [CommandLine.act, commandLine, flagKind, hread, error_bind]

theorem act_wrong (items : List (Item Text Flag)) (item : Item Text Flag)
    (hfits : (commandLine readFile).Fits item) (e : Stop) :
    (commandLine readFile).act (settingsOf readFile items) item = .error e ↔ Wrong readFile items item e := by
  obtain ⟨arg, flag, value⟩ := item
  obtain ⟨-, hvalue⟩ := hfits
  simp only at hvalue
  cases value with
  | none =>
    cases flag with
    | includeHeaders | failOnError => exact iff_of_false nofun id
    | target text =>
      simp only [CommandLine.act, commandLine, flagKind, setTarget, Wrong]
      by_cases hseen : (settingsOf readFile items).sawTarget = true
      · rw [if_pos hseen]
        exact ⟨fun h => ⟨hseen, (Except.error.inj h).symm⟩, fun h => h.2 ▸ rfl⟩
      · rw [if_neg hseen]
        exact iff_of_false nofun fun h => hseen h.1
    | _ => exact absurd hvalue Bool.false_ne_true
  | some value =>
    cases flag with
    | includeHeaders | failOnError | target => exact absurd hvalue (Option.some_ne_none value)
    | socket | method | output => exact iff_of_false nofun id
    | header =>
      simp only [CommandLine.act, commandLine, flagKind, setting, Wrong, bind_eq_error]
      simp [pure, Except.pure]
    | data =>
      simp only [CommandLine.act, commandLine, flagKind, setting, Wrong, bind_eq_error]
      simp [pure, Except.pure]

/-! ## The line -/

theorem parseArgs_ok_iff (args : List Text) (options : Options) :
    parseArgs readFile args = .ok options ↔
      ∃ items, args = wordsOf items ∧ (∀ item ∈ items, (commandLine readFile).Fits item) ∧
        AllMay (May readFile) items ∧ options = optionsOf readFile items := by
  have hline := parse_means (commandLine readFile) _ _ (settingsOf_means readFile) args
  unfold parseArgs
  rw [bind_eq_ok]
  constructor
  · rintro ⟨settings, hparse, hdone⟩
    obtain ⟨items, hargs, hfits, hmay, rfl⟩ := (hline settings).mp hparse
    exact ⟨items, hargs, hfits, hmay, (Except.ok.inj hdone).symm⟩
  · rintro ⟨items, hargs, hfits, hmay, rfl⟩
    exact ⟨settingsOf readFile items, (hline _).mpr ⟨items, hargs, hfits, hmay, rfl⟩, rfl⟩

/-- **The meaning of a request's line**: `parse_args` accepts the lines that are options, each with its
value if it takes one, where every `-H` has a colon, every `-d` a file that can be read or its data, and one
target stands at most. What it returns is the last value of each option, all values of `-H`, and which of
the others stand on the line, with `GET`, no body and `/` where nothing is said. Its error is that of the
first place where a line is none. -/
theorem request_line_meaning (args : List Text) :
    (∀ options, parseArgs readFile args = .ok options ↔
      ∃ items, args = wordsOf items ∧ (∀ item ∈ items, (commandLine readFile).Fits item) ∧
        AllMay (May readFile) items ∧ options = optionsOf readFile items) ∧
    ∀ e, parseArgs readFile args = .error e ↔
      ∃ items rest, args = wordsOf items ++ rest ∧ (∀ item ∈ items, (commandLine readFile).Fits item) ∧
        AllMay (May readFile) items ∧
        ((commandLine readFile).Breaks rest e ∨ ∃ item more, (commandLine readFile).Fits item ∧
          rest = item.words ++ more ∧ Wrong readFile items item e) := by
  refine ⟨parseArgs_ok_iff readFile args, fun e => ?_⟩
  rw [← parse_wrong (commandLine readFile) _ _ (settingsOf_means readFile) (Wrong readFile)
    (act_wrong readFile) args e]
  unfold parseArgs
  rw [bind_eq_error]
  exact ⟨fun h => h.resolve_right nofun, .inl⟩

/-! ## What can be asked for -/

/-- What `std::env::args` can yield: a `String`, of an argument that ends at its first NUL byte. -/
structure IsArgument (text : Text) : Prop where
  utf8 : isUtf8 text = true
  noNul : 0 ∉ text

instance (text : Text) : Decidable (IsArgument text) :=
  decidable_of_iff (isUtf8 text = true ∧ 0 ∉ text) ⟨fun h => ⟨h.1, h.2⟩, fun h => ⟨h.utf8, h.noNul⟩⟩

theorem isArgument_append (a : Text) (b : Byte) (t : Text) (hb : b < 0x80) (hnul : b ≠ 0) :
    IsArgument (a ++ b :: t) ↔ IsArgument a ∧ IsArgument t := by
  constructor
  · rintro ⟨hutf, hno⟩
    rw [isUtf8_append a b t hb, Bool.and_eq_true] at hutf
    simp only [List.mem_append, List.mem_cons, not_or] at hno
    exact ⟨⟨hutf.1, hno.1⟩, hutf.2, hno.2.2⟩
  · rintro ⟨ha, ht⟩
    refine ⟨?_, ?_⟩
    · rw [isUtf8_append a b t hb, ha.utf8, ht.utf8]
      rfl
    · simp only [List.mem_append, List.mem_cons, not_or]
      exact ⟨ha.noNul, hnul.symm, ht.noNul⟩

theorem isArgument_trim (text : Text) (h : IsArgument text) : IsArgument (trim text) :=
  ⟨isUtf8_trim text h.utf8, fun hmem => h.noNul (mem_of_mem_trim text 0 hmem)⟩

/-- Every text is one of an argument; the field of a `-H` is trimmed, and its name has no colon; a body is
the text of an argument that does not begin with `@`, or what is in a file that an argument can name; and no
target begins with a dash, but the dash alone. -/
structure Expressible (options : Options) : Prop where
  texts : ∀ text ∈ options.method :: options.target :: (options.socket.toList ++ options.output.toList),
    IsArgument text
  fields : ∀ field ∈ options.headers, IsArgument field.1 ∧ IsArgument field.2
  headers : ∀ field ∈ options.headers, ch ':' ∉ field.1 ∧ trim field.1 = field.1 ∧ trim field.2 = field.2
  body : (IsArgument options.body ∧ options.body.head? ≠ some (ch '@')) ∨
    ∃ path, IsArgument path ∧ readFile path = .ok options.body
  target : (ascii "-").isPrefixOf options.target = true → options.target.length ≤ 1

theorem readFlag_target (arg text : Text) :
    readFlag arg = .ok (.target text) ↔
      text = arg ∧ ((ascii "-").isPrefixOf arg = true → arg.length ≤ 1) := by
  constructor
  · intro h
    unfold readFlag at h
    repeat' split at h
    all_goals cases h
    rename_i hdash
    exact ⟨rfl, fun hbegins => Nat.le_of_not_lt fun hlong => hdash ⟨hbegins, hlong⟩⟩
  · rintro ⟨rfl, hdash⟩
    have hne : ∀ flag : Text, (ascii "-").isPrefixOf flag = true → 1 < flag.length → text ≠ flag := by
      rintro flag hbegins hlong rfl
      exact Nat.not_le.mpr hlong (hdash hbegins)
    have hhelp : ¬ (text = ascii "-h" ∨ text = ascii "--help") := by
      rintro (h | h)
      · exact hne _ rfl (by decide) h
      · exact hne _ rfl (by decide) h
    unfold readFlag
    rw [if_neg (hne _ rfl (by decide)), if_neg (hne _ rfl (by decide)), if_neg (hne _ rfl (by decide)),
      if_neg (hne _ rfl (by decide)), if_neg (hne _ rfl (by decide)), if_neg (hne _ rfl (by decide)),
      if_neg (hne _ rfl (by decide)), if_neg hhelp, if_neg fun h => Nat.not_le.mpr h.2 (hdash h.1)]
    rfl

theorem isArgument_at (path : Text) : IsArgument (ch '@' :: path) ↔ IsArgument path := by
  have hat := isArgument_append [] (ch '@') path (by decide) (by decide)
  rwa [List.nil_append, and_iff_right (by decide)] at hat

theorem readData_ok (spec body : Bytes) (harg : IsArgument spec) (h : readData readFile spec = .ok body) :
    (IsArgument body ∧ body.head? ≠ some (ch '@')) ∨ ∃ path, IsArgument path ∧ readFile path = .ok body := by
  unfold readData at h
  cases spec with
  | nil =>
    rw [← Except.ok.inj h]
    exact .inl ⟨harg, (Option.some_ne_none _).symm⟩
  | cons b path =>
    simp only at h
    by_cases hat : b = ch '@'
    · rw [if_pos hat] at h
      rw [hat, isArgument_at] at harg
      cases hread : readFile path with
      | ok bytes =>
        rw [hread] at h
        rw [← Except.ok.inj h]
        exact .inr ⟨path, harg, hread⟩
      | error e =>
        rw [hread] at h
        cases h
    · rw [if_neg hat] at h
      rw [← Except.ok.inj h]
      exact .inl ⟨harg, fun h => hat (Option.some.inj h)⟩

theorem exists_data (body : Bytes)
    (h : (IsArgument body ∧ body.head? ≠ some (ch '@')) ∨ ∃ path, IsArgument path ∧ readFile path = .ok body) :
    ∃ spec, IsArgument spec ∧ readData readFile spec = .ok body := by
  rcases h with ⟨harg, hhead⟩ | ⟨path, harg, hread⟩
  · refine ⟨body, harg, ?_⟩
    cases body with
    | nil => rfl
    | cons b rest =>
      simp only [readData]
      rw [if_neg fun hat => hhead (congrArg some hat)]
      rfl
  · refine ⟨ch '@' :: path, (isArgument_at path).mpr harg, ?_⟩
    simp only [readData, if_true, hread]
    rfl

theorem parseHeader_iff (spec : Text) (field : Header) :
    parseHeader spec = .ok field ↔
      ∃ name value, spec = name ++ ch ':' :: value ∧ ch ':' ∉ name ∧ field = (trim name, trim value) := by
  unfold parseHeader
  cases hsplit : splitOnce (ch ':') spec with
  | none =>
    refine iff_of_false nofun ?_
    rintro ⟨name, value, rfl, hname, -⟩
    rw [splitOnce_append _ _ _ hname] at hsplit
    cases hsplit
  | some parts =>
    obtain ⟨rfl, hname⟩ := (splitOnce_eq_some_iff _ _ _ _).mp hsplit
    constructor
    · intro h
      exact ⟨parts.1, parts.2, rfl, hname, (Except.ok.inj h).symm⟩
    · rintro ⟨name, value, hspec, hname', rfl⟩
      rw [hspec, splitOnce_append _ _ _ hname'] at hsplit
      rw [← Option.some.inj hsplit]
      rfl

theorem target_word (items : List (Item Text Flag)) (hfits : ∀ item ∈ items, (commandLine readFile).Fits item)
    (text : Text) (h : items.findSome? targetOf = some text) :
    text ∈ wordsOf items ∧ ((ascii "-").isPrefixOf text = true → text.length ≤ 1) := by
  obtain ⟨item, hitem, htarget⟩ := List.exists_of_findSome?_eq_some h
  have hfit := (hfits item hitem).1
  obtain ⟨arg, flag, value⟩ := item
  cases flag with
  | target text' =>
    obtain rfl := Option.some.inj htarget
    obtain ⟨rfl, hdash⟩ := (readFlag_target arg text').mp hfit
    exact ⟨List.mem_flatMap.mpr ⟨_, hitem, List.mem_cons_self⟩, hdash⟩
  | _ => cases htarget

theorem items_expressible (items : List (Item Text Flag))
    (hfits : ∀ item ∈ items, (commandLine readFile).Fits item)
    (hargs : ∀ word ∈ wordsOf items, IsArgument word) :
    Expressible readFile (optionsOf readFile items) := by
  have hvalue : ∀ flag value, value ∈ valuesOf flag items → IsArgument value :=
    fun flag value hmem => hargs value (mem_wordsOf_valuesOf flag items value hmem)
  have hlast : ∀ flag value, lastValue flag items = some value → IsArgument value :=
    fun flag value h => hvalue flag value (List.mem_of_getLast? h)
  have hfield : ∀ field ∈ (optionsOf readFile items).headers, ∃ name value, IsArgument name ∧
      IsArgument value ∧ ch ':' ∉ name ∧ field = (trim name, trim value) := by
    intro field hmem
    obtain ⟨spec, hspec, hparse⟩ := List.mem_filterMap.mp hmem
    obtain ⟨name, value, rfl, hname, rfl⟩ :=
      (parseHeader_iff spec field).mp ((toOption_eq_some _ _).mp hparse)
    obtain ⟨hnameArg, hvalueArg⟩ :=
      (isArgument_append name (ch ':') value (by decide) (by decide)).mp (hvalue .header _ hspec)
    exact ⟨name, value, hnameArg, hvalueArg, hname, rfl⟩
  refine ⟨?_, ?_, ?_, ?_, ?_⟩
  · simp only [List.forall_mem_cons, List.forall_mem_append, Option.mem_toList]
    refine ⟨?_, ?_, hlast .socket, hlast .output⟩
    · simp only [optionsOf]
      cases hmethod : lastValue .method items with
      | none => decide
      | some method => exact hlast .method method hmethod
    · simp only [optionsOf]
      cases hseen : items.findSome? targetOf with
      | none => decide
      | some text => exact hargs text (target_word readFile items hfits text hseen).1
  · intro field hmem
    obtain ⟨name, value, hname, hvalue, -, rfl⟩ := hfield field hmem
    exact ⟨isArgument_trim name hname, isArgument_trim value hvalue⟩
  · intro field hmem
    obtain ⟨name, value, -, -, hname, rfl⟩ := hfield field hmem
    exact ⟨fun hcolon => hname (mem_of_mem_trim name _ hcolon), trim_trim name, trim_trim value⟩
  · simp only [optionsOf]
    cases hdata : (lastValue .data items).bind fun spec => (readData readFile spec).toOption with
    | none => exact .inl ⟨by decide, (Option.some_ne_none _).symm⟩
    | some body =>
      obtain ⟨spec, hspec, hread⟩ := Option.bind_eq_some_iff.mp hdata
      exact readData_ok readFile spec body (hlast .data spec hspec) ((toOption_eq_some _ _).mp hread)
  · simp only [optionsOf]
    cases hseen : items.findSome? targetOf with
    | none => exact fun _ => by decide
    | some text => exact (target_word readFile items hfits text hseen).2

/-- The options of a line for these options, where `-d` is given this. -/
def flagsOf (options : Options) (data : Text) : List (Item Text Flag) :=
  said (ascii "-S") .socket (options.socket.toList.map some) ++
    said (ascii "-X") .method [some options.method] ++
    said (ascii "-H") .header (options.headers.map fun field => some (field.1 ++ ch ':' :: field.2)) ++
    said (ascii "-d") .data [some data] ++
    said (ascii "-o") .output (options.output.toList.map some) ++
    said (ascii "-i") .includeHeaders (if options.includeHeaders then [none] else []) ++
    said (ascii "-F") .failOnError (if options.failOnError then [none] else [])

def itemsOf (options : Options) (data : Text) : List (Item Text Flag) :=
  flagsOf options data ++ said options.target (.target options.target) [none]

section Written

variable (options : Options) (data : Text)

theorem valuesOf_itemsOf (flag : Flag) :
    valuesOf flag (itemsOf options data) =
      match flag with
      | .socket => options.socket.toList
      | .method => [options.method]
      | .header => options.headers.map fun field => field.1 ++ ch ':' :: field.2
      | .data => [data]
      | .output => options.output.toList
      | _ => [] := by
  simp only [itemsOf, flagsOf, valuesOf_append, valuesOf_said]
  cases flag with
  | includeHeaders => cases options.includeHeaders <;> simp
  | failOnError => cases options.failOnError <;> simp
  | _ => simp [List.filterMap_map]

theorem given_itemsOf :
    given .includeHeaders (itemsOf options data) = options.includeHeaders ∧
      given .failOnError (itemsOf options data) = options.failOnError := by
  simp only [itemsOf, flagsOf, given_append, given_said]
  cases options.includeHeaders <;> cases options.failOnError <;> simp

theorem targetOf_said (arg : Text) (flag : Flag) (values : List (Option Text))
    (h : ∀ text, flag ≠ .target text) :
    (said arg flag values).findSome? targetOf = none := by
  rw [List.findSome?_eq_none_iff]
  intro item hitem
  obtain ⟨value, -, rfl⟩ := List.mem_map.mp hitem
  cases flag with
  | target text => exact absurd rfl (h text)
  | _ => rfl

theorem target_flagsOf : (flagsOf options data).findSome? targetOf = none := by
  simp only [flagsOf, List.findSome?_append]
  rw [targetOf_said _ .socket _ fun _ => nofun, targetOf_said _ .method _ fun _ => nofun,
    targetOf_said _ .header _ fun _ => nofun, targetOf_said _ .data _ fun _ => nofun,
    targetOf_said _ .output _ fun _ => nofun, targetOf_said _ .includeHeaders _ fun _ => nofun,
    targetOf_said _ .failOnError _ fun _ => nofun]
  rfl

theorem target_itemsOf : (itemsOf options data).findSome? targetOf = some options.target := by
  rw [itemsOf, List.findSome?_append, target_flagsOf]
  rfl

end Written

theorem parseHeader_written (field : Header)
    (h : ch ':' ∉ field.1 ∧ trim field.1 = field.1 ∧ trim field.2 = field.2) :
    parseHeader (field.1 ++ ch ':' :: field.2) = .ok field :=
  (parseHeader_iff _ field).mpr ⟨field.1, field.2, rfl, h.1, by rw [h.2.1, h.2.2]⟩

theorem optionsOf_itemsOf (options : Options) (h : Expressible readFile options) (data : Text)
    (hdata : readData readFile data = .ok options.body) :
    optionsOf readFile (itemsOf options data) = options := by
  have hheaders : (options.headers.map fun field => field.1 ++ ch ':' :: field.2).filterMap
      (fun spec => (parseHeader spec).toOption) = options.headers := by
    rw [List.filterMap_map]
    have hall : ∀ field ∈ options.headers,
        ((fun spec => (parseHeader spec).toOption) ∘ fun field => field.1 ++ ch ':' :: field.2) field =
          some field :=
      fun field hfield => (toOption_eq_some _ _).mpr (parseHeader_written field (h.headers field hfield))
    rw [List.filterMap_congr hall, List.filterMap_some]
  have hbody : (readData readFile data).toOption = some options.body := (toOption_eq_some _ _).mpr hdata
  have hsocket : options.socket.toList.getLast? = options.socket := by cases options.socket <;> rfl
  have houtput : options.output.toList.getLast? = options.output := by cases options.output <;> rfl
  obtain ⟨hinclude, hfail⟩ := given_itemsOf options data
  simp only [optionsOf, lastValue, valuesOf_itemsOf, hsocket, houtput, hheaders, hinclude, hfail,
    target_itemsOf, List.getLast?_singleton, Option.bind_some, hbody, Option.getD_some]

/-- An item that fits, and may stand anywhere. -/
def Fine (item : Item Text Flag) : Prop :=
  (commandLine readFile).Fits item ∧ ∀ before, May readFile before item

theorem said_fine (arg : Text) (flag : Flag) (values : List (Option Text))
    (h : ∀ value ∈ values, Fine readFile ⟨arg, flag, value⟩) :
    ∀ item ∈ said arg flag values, Fine readFile item := by
  intro item hitem
  obtain ⟨value, hvalue, rfl⟩ := List.mem_map.mp hitem
  exact h value hvalue

theorem flagsOf_fine (options : Options) (h : Expressible readFile options) (data : Text)
    (hdata : readData readFile data = .ok options.body) :
    ∀ item ∈ flagsOf options data, Fine readFile item := by
  have hswitch : ∀ (b : Bool) (value : Option Text), value ∈ (if b then [none] else []) → value = none := by
    intro b value hvalue
    cases b with
    | true => exact List.mem_singleton.mp hvalue
    | false => cases hvalue
  unfold flagsOf
  simp only [List.forall_mem_append]
  refine ⟨⟨⟨⟨⟨⟨?_, ?_⟩, ?_⟩, ?_⟩, ?_⟩, ?_⟩, ?_⟩ <;> refine said_fine readFile _ _ _ fun value hvalue => ?_
  · obtain ⟨socket, -, rfl⟩ := List.mem_map.mp hvalue
    exact ⟨⟨rfl, rfl⟩, fun _ => trivial⟩
  · obtain rfl := List.mem_singleton.mp hvalue
    exact ⟨⟨rfl, rfl⟩, fun _ => trivial⟩
  · obtain ⟨field, hfield, rfl⟩ := List.mem_map.mp hvalue
    exact ⟨⟨rfl, rfl⟩, fun _ => ⟨field, parseHeader_written field (h.headers field hfield)⟩⟩
  · obtain rfl := List.mem_singleton.mp hvalue
    exact ⟨⟨rfl, rfl⟩, fun _ => ⟨options.body, hdata⟩⟩
  · obtain ⟨path, -, rfl⟩ := List.mem_map.mp hvalue
    exact ⟨⟨rfl, rfl⟩, fun _ => trivial⟩
  · obtain rfl := hswitch _ value hvalue
    exact ⟨⟨rfl, rfl⟩, fun _ => trivial⟩
  · obtain rfl := hswitch _ value hvalue
    exact ⟨⟨rfl, rfl⟩, fun _ => trivial⟩

theorem itemsOf_may (options : Options) (h : Expressible readFile options) (data : Text)
    (hdata : readData readFile data = .ok options.body) :
    (∀ item ∈ itemsOf options data, (commandLine readFile).Fits item) ∧
      AllMay (May readFile) (itemsOf options data) := by
  have hflags := flagsOf_fine readFile options h data hdata
  have htarget : readFlag options.target = .ok (.target options.target) :=
    (readFlag_target _ _).mpr ⟨rfl, h.target⟩
  refine ⟨List.forall_mem_append.mpr ⟨fun item hitem => (hflags item hitem).1, ?_⟩,
    (allMay_snoc _ _ _).mpr ⟨?_, ?_⟩⟩
  · intro item hitem
    obtain rfl := List.mem_singleton.mp hitem
    exact ⟨htarget, rfl⟩
  · intro before item after hsplit
    exact (hflags item (by rw [hsplit]; simp)).2 before
  · exact target_flagsOf options data

theorem itemsOf_words (options : Options) (h : Expressible readFile options) (data : Text)
    (hdata : IsArgument data) : ∀ word ∈ wordsOf (itemsOf options data), IsArgument word := by
  have hflag : ∀ (arg : Text) (flag : Flag) (values : List (Option Text)), IsArgument arg →
      (∀ value, some value ∈ values → IsArgument value) →
      ∀ word ∈ wordsOf (said arg flag values), IsArgument word := by
    intro arg flag values harg hvalues word hword
    rcases wordsOf_said arg flag values word hword with rfl | hvalue
    · exact harg
    · exact hvalues word hvalue
  have htexts := h.texts
  simp only [List.forall_mem_cons, List.forall_mem_append] at htexts
  obtain ⟨hmethod, htarget, hsocket, houtput⟩ := htexts
  simp only [itemsOf, flagsOf, wordsOf_append, List.forall_mem_append]
  refine ⟨⟨⟨⟨⟨⟨⟨?_, ?_⟩, ?_⟩, ?_⟩, ?_⟩, ?_⟩, ?_⟩, ?_⟩
  · exact hflag _ _ _ (by decide) fun value hmem => hsocket value (by simpa using hmem)
  · refine hflag _ _ _ (by decide) fun value hmem => ?_
    rwa [Option.some.inj (List.mem_singleton.mp hmem)]
  · refine hflag _ _ _ (by decide) fun value hmem => ?_
    obtain ⟨field, hfield, hvalue⟩ := List.mem_map.mp hmem
    rw [← Option.some.inj hvalue, isArgument_append _ _ _ (by decide) (by decide)]
    exact h.fields field hfield
  · refine hflag _ _ _ (by decide) fun value hmem => ?_
    rwa [Option.some.inj (List.mem_singleton.mp hmem)]
  · exact hflag _ _ _ (by decide) fun value hmem => houtput value (by simpa using hmem)
  · exact hflag _ _ _ (by decide) fun value hmem => by split at hmem <;> simp at hmem
  · exact hflag _ _ _ (by decide) fun value hmem => by split at hmem <;> simp at hmem
  · exact hflag _ _ _ htarget fun value hmem => by simp at hmem

/-- **What a line can ask for**: a request is what some line says just when it is expressible. -/
theorem lines_reach (options : Options) :
    (∃ args, (∀ arg ∈ args, IsArgument arg) ∧ parseArgs readFile args = .ok options) ↔
      Expressible readFile options := by
  constructor
  · rintro ⟨args, hargs, hparse⟩
    obtain ⟨items, rfl, hfits, -, rfl⟩ := (parseArgs_ok_iff readFile args options).mp hparse
    exact items_expressible readFile items hfits hargs
  · intro h
    obtain ⟨data, harg, hdata⟩ := exists_data readFile options.body h.body
    obtain ⟨hfits, hmay⟩ := itemsOf_may readFile options h data hdata
    exact ⟨wordsOf (itemsOf options data), itemsOf_words readFile options h data harg,
      (parseArgs_ok_iff readFile _ options).mpr
        ⟨_, rfl, hfits, hmay, (optionsOf_itemsOf readFile options h data hdata).symm⟩⟩

end Capcurl.Cli.Client
