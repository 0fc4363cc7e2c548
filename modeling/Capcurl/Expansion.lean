import Capcurl.Lib.Checks
import Capcurl.Policy.Header

/-! # What the value of an injection is made of

Each `@path` word of `Name: value` stands for a file. The bytes are checked when the files are in place.
-/

namespace Capcurl.Expansion

open Lib Policy

/-! ## Words -/

theorem mem_of_word (t word : Text) (b : Byte) (hword : word ∈ splitWhitespace t) (hb : b ∈ word) :
    b ∈ t := by
  obtain ⟨cs, hcs, rfl⟩ := List.mem_map.mp hword
  obtain ⟨c, hc, hbc⟩ := List.mem_flatten.mp hb
  rw [← chars_flatten t]
  exact List.mem_flatten.mpr ⟨c, mem_of_splitOnP _ _ _ c (List.mem_filter.mp hcs).1 hc, hbc⟩

/-- A word that names a file. -/
def Refers (word : Text) : Prop := word.head? = some (ch '@')

def HasReference (value : Text) : Prop := ∃ word ∈ splitWhitespace value, Refers word

def isNewline (b : Byte) : Bool := b == 13 || b == 10

section Files

variable (readFile : Text → Option Text)

/-- What stands in the value for a word: the contents of its file, less the newlines that they end with,
or the word itself. -/
inductive StandsFor : Text → Text → Prop where
  | file (path contents newlines : Text) (hread : readFile path = some (contents ++ newlines))
      (hnewlines : ∀ b ∈ newlines, isNewline b = true)
      (hlast : ∀ b, contents.getLast? = some b → isNewline b = false) :
      StandsFor (ch '@' :: path) contents
  | word (word : Text) (h : ¬ Refers word) : StandsFor word word

theorem expandWord_eq_ok_iff (word part : Text) :
    expandWord readFile word = .ok part ↔ StandsFor readFile word part := by
  unfold expandWord
  constructor
  · intro h
    split at h
    · rename_i hhead
      obtain ⟨path, rfl⟩ := List.head?_eq_some_iff.mp hhead
      cases hread : readFile path with
      | none =>
        rw [List.tail_cons, hread] at h
        cases h
      | some contents =>
        rw [List.tail_cons, hread] at h
        obtain ⟨newlines, rfl, hnewlines, hlast⟩ :=
          (rdropWhile_eq_iff isNewline contents part).mp (Except.ok.inj h)
        exact .file path part newlines hread hnewlines hlast
    · rename_i hhead
      cases h
      exact .word word hhead
  · intro h
    cases h with
    | file path _ newlines hread hnewlines hlast =>
      rw [List.head?_cons, if_pos rfl, List.tail_cons, hread]
      apply congrArg Except.ok
      exact (rdropWhile_eq_iff isNewline _ part).mpr ⟨newlines, rfl, hnewlines, hlast⟩
    | word _ hword => exact if_neg hword

theorem part_of_word (words parts : List Text) (h : List.Forall₂ (StandsFor readFile) words parts)
    (word : Text) (hword : word ∈ words) : ∃ part ∈ parts, StandsFor readFile word part := by
  induction h with
  | nil => cases hword
  | cons hstands _ ih =>
    rcases List.mem_cons.mp hword with rfl | hword
    · exact ⟨_, List.mem_cons_self, hstands⟩
    · obtain ⟨part, hpart, hstands⟩ := ih hword
      exact ⟨part, List.mem_cons_of_mem _ hpart, hstands⟩

/-! ## The loop over the words -/

/-- One turn of the loop of `expand_file_references`. -/
def expandTurn (out : Text) (entry : Text × Nat) : Except GrantError Text := do
  let out := if entry.2 > 0 then out ++ [ch ' '] else out
  return out ++ (← expandWord readFile entry.1)

theorem expandTurns_later (words : List Text) (out : Text) (k : Nat) :
    (words.zipIdx (k + 1)).foldlM (expandTurn readFile) out =
      (words.mapM (expandWord readFile)).map fun parts => out ++ parts.flatMap (ch ' ' :: ·) := by
  induction words generalizing out k with
  | nil =>
    simp only [List.zipIdx_nil, List.foldlM_nil, List.mapM_nil]
    exact congrArg Except.ok (List.append_nil out).symm
  | cons word words ih =>
    rw [List.zipIdx_cons, List.foldlM_cons, List.mapM_cons, expandTurn, if_pos (Nat.succ_pos k)]
    cases expandWord readFile word with
    | error e => rfl
    | ok part =>
      refine (ih (out ++ [ch ' '] ++ part) (k + 1)).trans ?_
      cases words.mapM (expandWord readFile) with
      | error e => rfl
      | ok parts =>
        refine congrArg Except.ok ?_
        simp

theorem expandTurns_join (words : List Text) :
    words.zipIdx.foldlM (expandTurn readFile) [] =
      (words.mapM (expandWord readFile)).map [ch ' '].intercalate := by
  cases words with
  | nil => rfl
  | cons word words =>
    rw [List.zipIdx_cons, List.foldlM_cons, List.mapM_cons, expandTurn, if_neg (Nat.lt_irrefl 0)]
    cases expandWord readFile word with
    | error e => rfl
    | ok part =>
      refine (expandTurns_later readFile words part 0).trans ?_
      cases words.mapM (expandWord readFile) with
      | error e => rfl
      | ok parts => exact congrArg Except.ok (intercalate_cons_flatMap (ch ' ') part parts).symm

theorem expandFileReferences_loops (value : Text) :
    expandFileReferences readFile value =
      if !(splitWhitespace value).any fun word => word.head? == some (ch '@') then .ok value
      else (splitWhitespace value).zipIdx.foldlM (expandTurn readFile) [] := by
  rw [expandTurns_join]
  rfl

/-! ## Values -/

theorem expandFileReferences_eq_ok_iff (value out : Text) :
    expandFileReferences readFile value = .ok out ↔
      (¬ HasReference value ∧ out = value) ∨
      (HasReference value ∧ ∃ parts, List.Forall₂ (StandsFor readFile) (splitWhitespace value) parts ∧
        out = [ch ' '].intercalate parts) := by
  have hany : ((splitWhitespace value).any fun word => word.head? == some (ch '@')) = true ↔
      HasReference value := by
    simp only [List.any_eq_true, beq_iff_eq]
    exact Iff.rfl
  unfold expandFileReferences
  by_cases href : HasReference value
  · rw [hany.mpr href, or_iff_right fun h => h.1 href]
    simp only [Bool.not_true, Bool.false_eq_true, if_false, bind_eq_ok, pure_eq_ok, mapM_eq_ok,
      expandWord_eq_ok_iff, href, true_and]
    exact exists_congr fun parts => and_congr_right fun _ => eq_comm
  · rw [Bool.eq_false_iff.mpr fun h => href (hany.mp h), or_iff_left fun h => href h.1]
    simp only [Bool.not_false, if_true, pure_eq_ok, href, not_false_eq_true, true_and]
    exact eq_comm

theorem expanded_parts (value out : Text) (h : expandFileReferences readFile value = .ok out) :
    ∃ parts, List.Forall₂ (StandsFor readFile) (splitWhitespace value) parts ∧
      (HasReference value → out = [ch ' '].intercalate parts) ∧ (¬ HasReference value → out = value) := by
  rcases (expandFileReferences_eq_ok_iff readFile value out).mp h with
    ⟨hnone, rfl⟩ | ⟨href, parts, hparts, rfl⟩
  · refine ⟨splitWhitespace out, List.forall₂_same.mpr ?_, fun href => absurd href hnone, fun _ => rfl⟩
    intro word hword
    exact .word word fun hrefers => hnone ⟨word, hword, hrefers⟩
  · exact ⟨parts, hparts, fun _ => rfl, fun hnone => absurd href hnone⟩

theorem word_expanded (value out word : Text) (b : Byte)
    (hout : expandFileReferences readFile value = .ok out) (hword : word ∈ splitWhitespace value)
    (hplain : ¬ Refers word) (hb : b ∈ word) : b ∈ out := by
  obtain ⟨parts, hparts, hjoined, hkept⟩ := expanded_parts readFile value out hout
  by_cases href : HasReference value
  · rw [hjoined href]
    obtain ⟨part, hpart, hstands⟩ := part_of_word readFile _ parts hparts word hword
    cases hstands with
    | file => exact absurd rfl hplain
    | word => exact mem_intercalate_of_mem _ b parts word hpart hb
  · rw [hkept href]
    exact mem_of_word value word b hword hb

theorem reference_read (value out path : Text) (hout : expandFileReferences readFile value = .ok out)
    (hword : ch '@' :: path ∈ splitWhitespace value) : readFile path ≠ none := by
  obtain ⟨parts, hparts, -, -⟩ := expanded_parts readFile value out hout
  obtain ⟨part, -, hstands⟩ := part_of_word readFile _ parts hparts _ hword
  cases hstands with
  | file _ _ newlines hread =>
    rw [hread]
    exact Option.some_ne_none _
  | word _ hplain => exact absurd rfl hplain

/-! ## Injections -/

theorem parse_eq_ok_iff (spec : Text) (i : Injection) :
    Injection.parse readFile spec = .ok i ↔
      ∃ name value, splitOnce (ch ':') spec = some (name, value) ∧
        (i.name = trim name ∧ i.name ≠ [] ∧ ∀ b ∈ i.name, isTokenByte b = true) ∧
        expandFileReferences readFile (trim value) = .ok i.value ∧ ∀ b ∈ i.value, isFieldByte b = true := by
  unfold Injection.parse
  cases hspec : splitOnce (ch ':') spec with
  | none => exact iff_of_false (fun h => nomatch h) (fun ⟨_, _, h, _⟩ => nomatch h)
  | some parts =>
    obtain ⟨name, value⟩ := parts
    simp only [throw_bind_else_eq_ok, bind_eq_ok, pure_eq_ok, Bool.or_eq_true, not_or,
      List.isEmpty_iff, Bool.not_eq_true', Bool.not_eq_false, List.all_eq_true, Option.some.injEq,
      Prod.mk.injEq]
    constructor
    · rintro ⟨⟨hne, htoken⟩, out, hout, hfield, rfl⟩
      exact ⟨name, value, ⟨rfl, rfl⟩, ⟨rfl, hne, htoken⟩, hout, hfield⟩
    · obtain ⟨_, out⟩ := i
      rintro ⟨_, _, ⟨rfl, rfl⟩, ⟨rfl, hne, htoken⟩, hout, hfield⟩
      exact ⟨⟨hne, htoken⟩, out, hout, hfield, rfl⟩

theorem parse_refused (spec : Text) (h : ∀ i, Injection.parse readFile spec ≠ .ok i) :
    ∃ e, Injection.parse readFile spec = .error e := by
  cases hparse : Injection.parse readFile spec with
  | error e => exact ⟨e, rfl⟩
  | ok i => exact absurd hparse (h i)

/-- **Injections.** A forbidden byte is refused in every part of the text that the value keeps: in all of
it where nothing is a reference, and in every word that is none. A file that cannot be read is refused.
What is accepted is the text, with each reference replaced by its file. -/
theorem injection_checked (spec name value : Text)
    (hspec : splitOnce (ch ':') spec = some (name, value)) :
    (¬ HasReference (trim value) → (∃ b ∈ trim value, isFieldByte b = false) →
      ∃ e, Injection.parse readFile spec = .error e) ∧
    ((∃ word ∈ splitWhitespace (trim value), ¬ Refers word ∧ ∃ b ∈ word, isFieldByte b = false) →
      ∃ e, Injection.parse readFile spec = .error e) ∧
    ((∃ path, ch '@' :: path ∈ splitWhitespace (trim value) ∧ readFile path = none) →
      ∃ e, Injection.parse readFile spec = .error e) ∧
    ∀ i, Injection.parse readFile spec = .ok i →
      (i.name = trim name ∧ i.name ≠ [] ∧ ∀ b ∈ i.name, isTokenByte b = true) ∧
      (∀ b ∈ i.value, isFieldByte b = true) ∧
      ∃ parts, List.Forall₂ (StandsFor readFile) (splitWhitespace (trim value)) parts ∧
        (HasReference (trim value) → i.value = [ch ' '].intercalate parts) ∧
        (¬ HasReference (trim value) → i.value = trim value) := by
  have hparse : ∀ i, Injection.parse readFile spec = .ok i →
      (i.name = trim name ∧ i.name ≠ [] ∧ ∀ b ∈ i.name, isTokenByte b = true) ∧
        expandFileReferences readFile (trim value) = .ok i.value ∧ ∀ b ∈ i.value, isFieldByte b = true := by
    intro i hi
    obtain ⟨name', value', hspec', h⟩ := (parse_eq_ok_iff readFile spec i).mp hi
    cases hspec.symm.trans hspec'
    exact h
  have hrefused : ∀ b, isFieldByte b = false →
      (∀ out, expandFileReferences readFile (trim value) = .ok out → b ∈ out) →
      ∃ e, Injection.parse readFile spec = .error e := by
    intro b hbad hkept
    apply parse_refused
    intro i hi
    obtain ⟨-, hexpand, hfield⟩ := hparse i hi
    have hgood := hfield b (hkept i.value hexpand)
    rw [hbad] at hgood
    cases hgood
  refine ⟨?_, ?_, ?_, ?_⟩
  · rintro hnone ⟨b, hb, hbad⟩
    refine hrefused b hbad fun out hout => ?_
    obtain ⟨-, -, -, hkept⟩ := expanded_parts readFile _ out hout
    rwa [hkept hnone]
  · rintro ⟨word, hword, hplain, b, hb, hbad⟩
    exact hrefused b hbad fun out hout => word_expanded readFile _ out word b hout hword hplain hb
  · rintro ⟨path, hword, hread⟩
    apply parse_refused
    intro i hi
    exact reference_read readFile _ _ path (hparse i hi).2.1 hword hread
  · intro i hi
    obtain ⟨hname, hexpand, hfield⟩ := hparse i hi
    exact ⟨hname, hfield, expanded_parts readFile _ _ hexpand⟩

end Files

def tokenFile (path : Text) : Option Text :=
  if path = ascii "token" ∨ path = [0xC3, 0xA9] then some (ascii "tok3n\n") else none

theorem injection_checked_token :
    (∃ e, Injection.parse tokenFile (ascii "X-Bad: a\r\nHost: evil.example") = .error e) ∧
    ∃ parts, List.Forall₂ (StandsFor tokenFile) (splitWhitespace (ascii "Bearer @token")) parts ∧
      ascii "Bearer tok3n" = [ch ' '].intercalate parts := by
  obtain ⟨hbad, -⟩ := injection_checked tokenFile (ascii "X-Bad: a\r\nHost: evil.example")
    (ascii "X-Bad") (ascii " a\r\nHost: evil.example") (by decide)
  obtain ⟨-, -, -, hok⟩ := injection_checked tokenFile (ascii "Authorization: Bearer @token")
    (ascii "Authorization") (ascii " Bearer @token") (by decide)
  obtain ⟨-, -, parts, hparts, hjoined, -⟩ :=
    hok ⟨ascii "Authorization", ascii "Bearer tok3n"⟩ (by decide)
  have htrim : trim (ascii " Bearer @token") = ascii "Bearer @token" := by decide
  rw [htrim] at hparts hjoined
  exact ⟨hbad (by unfold HasReference Refers; decide) (by decide),
    parts, hparts, hjoined ⟨ascii "@token", by decide, by rfl⟩⟩

/-- The bytes of a path are not sent, nor is the white space around the words, and neither is checked. -/
theorem forbidden_bytes_accepted :
    (splitOnce (ch ':') (ascii "X: @" ++ [0xC3, 0xA9]) = some (ascii "X", ascii " @" ++ [0xC3, 0xA9]) ∧
      (∃ b ∈ trim (ascii " @" ++ [0xC3, 0xA9]), isFieldByte b = false) ∧
      Injection.parse tokenFile (ascii "X: @" ++ [0xC3, 0xA9]) = .ok ⟨ascii "X", ascii "tok3n"⟩) ∧
    splitOnce (ch ':') (ascii "X: Bearer\r\n@token") = some (ascii "X", ascii " Bearer\r\n@token") ∧
      (∃ b ∈ trim (ascii " Bearer\r\n@token"), isFieldByte b = false) ∧
      Injection.parse tokenFile (ascii "X: Bearer\r\n@token") = .ok ⟨ascii "X", ascii "Bearer tok3n"⟩ := by
  decide

end Capcurl.Expansion
