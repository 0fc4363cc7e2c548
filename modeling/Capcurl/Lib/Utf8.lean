import Capcurl.Lib.Bytes
import Mathlib.Data.List.DropRight

/-! # UTF-8 text: characters, validity, white space -/

namespace Capcurl.Lib

/-! ## Trimming by a predicate -/

section TrimBy

variable {α : Type} (p : α → Bool)

/-- Without the leading and the trailing elements that satisfy `p`. -/
def trimBy (l : List α) : List α := (l.dropWhile p).rdropWhile p

theorem trimBy_cons_of_pos (a : α) (l : List α) (h : p a = true) : trimBy p (a :: l) = trimBy p l := by
  rw [trimBy, List.dropWhile_cons_of_pos h, trimBy]

theorem dropWhile_congr (q : α → Bool) (l : List α) (h : ∀ a ∈ l, p a = q a) :
    l.dropWhile p = l.dropWhile q := by
  induction l with
  | nil => rfl
  | cons a l ih =>
    rw [List.dropWhile_cons, List.dropWhile_cons, h a List.mem_cons_self,
      ih fun b hb => h b (List.mem_cons_of_mem a hb)]

theorem trimBy_congr (q : α → Bool) (l : List α) (h : ∀ a ∈ l, p a = q a) : trimBy p l = trimBy q l := by
  unfold trimBy
  rw [dropWhile_congr p q l h, List.rdropWhile, List.rdropWhile, dropWhile_congr p q]
  intro a ha
  exact h a (List.dropWhile_subset q (List.mem_reverse.mp ha))

theorem trimBy_append_singleton (l : List α) (a : α) (h : p a = true) :
    trimBy p (l ++ [a]) = trimBy p l := by
  by_cases hall : ∀ x ∈ l, p x = true
  · have hl : l.dropWhile p = [] := List.dropWhile_eq_nil_iff.mpr hall
    have hla : (l ++ [a]).dropWhile p = [] := by
      rw [List.dropWhile_eq_nil_iff]
      intro x hx
      rcases List.mem_append.mp hx with hx | hx
      · exact hall x hx
      · rw [List.mem_singleton.mp hx]; exact h
    unfold trimBy
    rw [hl, hla]
  · have hne : l.dropWhile p ≠ [] := fun he => hall (List.dropWhile_eq_nil_iff.mp he)
    rw [trimBy, List.dropWhile_append, if_neg (by simpa [List.isEmpty_iff] using hne),
      List.rdropWhile_concat_pos _ _ _ h, trimBy]

theorem trimBy_eq_self (l : List α) (hhead : ∀ a, l.head? = some a → p a = false)
    (hlast : ∀ a, l.getLast? = some a → p a = false) : trimBy p l = l := by
  have hd : l.dropWhile p = l := by
    cases l with
    | nil => rfl
    | cons a l => exact List.dropWhile_cons_of_neg (by simp [hhead a rfl])
  unfold trimBy
  rw [hd, List.rdropWhile_eq_self_iff]
  intro hl
  rw [hlast _ (List.getLast?_eq_some_getLast hl)]
  decide

theorem trimBy_head (l : List α) (a : α) (h : (trimBy p l).head? = some a) : p a = false := by
  have hpre : trimBy p l <+: l.dropWhile p := List.rdropWhile_prefix p _
  obtain ⟨t, ht⟩ := hpre
  have hne : (l.dropWhile p).head? = some a := by
    rw [← ht, List.head?_append, h]
    rfl
  have hnot := List.head?_dropWhile_not p l
  rw [hne] at hnot
  exact hnot

theorem rdropWhile_last (l : List α) (a : α) (h : (l.rdropWhile p).getLast? = some a) : p a = false := by
  have hne : l.rdropWhile p ≠ [] := by
    intro he
    simp [he] at h
  rw [List.getLast?_eq_some_getLast hne, Option.some.injEq] at h
  have := List.rdropWhile_last_not p l hne
  rw [← h]
  exact Bool.eq_false_iff.mpr this

theorem rdropWhile_eq_iff (l r : List α) :
    l.rdropWhile p = r ↔
      ∃ s, l = r ++ s ∧ (∀ a ∈ s, p a = true) ∧ ∀ a, r.getLast? = some a → p a = false := by
  constructor
  · rintro rfl
    exact ⟨l.rtakeWhile p, (List.rdropWhile_append_rtakeWhile).symm,
      fun a ha => List.mem_rtakeWhile_imp ha, rdropWhile_last p l⟩
  · rintro ⟨s, rfl, hs, hlast⟩
    induction s using List.reverseRecOn with
    | nil =>
      rw [List.append_nil, List.rdropWhile_eq_self_iff]
      intro hr
      rw [hlast _ (List.getLast?_eq_some_getLast hr)]
      decide
    | append_singleton s a ih =>
      rw [← List.append_assoc, List.rdropWhile_concat_pos _ _ _ (hs a (by simp))]
      exact ih fun b hb => hs b (by simp [hb])

theorem trimBy_last (l : List α) (a : α) (h : (trimBy p l).getLast? = some a) : p a = false :=
  rdropWhile_last p (l.dropWhile p) a h

theorem trimBy_spec (l : List α) :
    ∃ s t, l = s ++ trimBy p l ++ t ∧ (∀ a ∈ s, p a = true) ∧ ∀ a ∈ t, p a = true := by
  refine ⟨l.takeWhile p, (l.dropWhile p).rtakeWhile p, ?_, ?_, ?_⟩
  · unfold trimBy
    rw [List.append_assoc, List.rdropWhile_append_rtakeWhile, List.takeWhile_append_dropWhile]
  · intro a ha
    exact List.mem_takeWhile_imp ha
  · intro a ha
    exact List.mem_rtakeWhile_imp ha

theorem trimBy_append_of_all (s l t : List α) (hs : ∀ a ∈ s, p a = true) (ht : ∀ a ∈ t, p a = true) :
    trimBy p (s ++ l ++ t) = trimBy p l := by
  induction t using List.reverseRecOn with
  | nil =>
    rw [List.append_nil]
    induction s with
    | nil => rfl
    | cons a s ih =>
      rw [List.cons_append, trimBy_cons_of_pos p _ _ (hs a (by simp))]
      exact ih fun b hb => hs b (List.mem_cons_of_mem _ hb)
  | append_singleton t a ih =>
    rw [← List.append_assoc, trimBy_append_singleton p _ _ (ht a (by simp))]
    exact ih fun b hb => ht b (by simp [hb])

end TrimBy

/-! ## Characters -/

def isContinuation (b : Byte) : Bool := 0x80 ≤ b && b ≤ 0xBF

/-- The sequences of a text: each continuation byte goes with the byte before it. -/
def chars : Text → List Bytes
  | [] => []
  | b :: t =>
    match chars t with
    | (c :: cs) :: rest => if isContinuation c then (b :: c :: cs) :: rest else [b] :: (c :: cs) :: rest
    | rest => [b] :: rest

theorem chars_flatten (t : Text) : (chars t).flatten = t := by
  induction t with
  | nil => rfl
  | cons b t ih =>
    unfold chars
    split
    · rename_i c cs rest hchars
      rw [hchars] at ih
      split
      · simpa using ih
      · simpa using ih
    · simpa using ih

/-- One character in UTF-8, by its lead byte (RFC 3629). -/
def isScalar : Bytes → Bool
  | [a] => a < 0x80
  | [a, b] => 0xC2 ≤ a && a ≤ 0xDF && isContinuation b
  | [a, b, c] =>
    isContinuation b && isContinuation c && 0xE0 ≤ a && a ≤ 0xEF &&
      (a != 0xE0 || 0xA0 ≤ b) && (a != 0xED || b ≤ 0x9F)
  | [a, b, c, d] =>
    isContinuation b && isContinuation c && isContinuation d && 0xF0 ≤ a && a ≤ 0xF4 &&
      (a != 0xF0 || 0x90 ≤ b) && (a != 0xF4 || b ≤ 0x8F)
  | _ => false

/-- `std::str::from_utf8` succeeds. -/
def isUtf8 (t : Bytes) : Bool := (chars t).all isScalar

/-- Unicode `White_Space`, in UTF-8. -/
def isWhitespace : Bytes → Bool
  | [a] => (9 ≤ a && a ≤ 13) || a == 32
  | [a, b] => a == 0xC2 && (b == 0x85 || b == 0xA0)
  | [a, b, c] =>
    (a == 0xE1 && b == 0x9A && c == 0x80) ||
    (a == 0xE2 && b == 0x80 && ((0x80 ≤ c && c ≤ 0x8A) || c == 0xA8 || c == 0xA9 || c == 0xAF)) ||
    (a == 0xE2 && b == 0x81 && c == 0x9F) ||
    (a == 0xE3 && b == 0x80 && c == 0x80)
  | _ => false

/-- `str::trim` -/
def trim (t : Text) : Text := (trimBy isWhitespace (chars t)).flatten

/-- `str::split_whitespace` -/
def splitWhitespace (t : Text) : List Text :=
  (((chars t).splitOnP isWhitespace).filter fun word => !word.isEmpty).map List.flatten

theorem chars_sequence (b : Byte) (cs t : Bytes) (hcs : ∀ c ∈ cs, isContinuation c = true)
    (ht : ∀ c cs rest, chars t = (c :: cs) :: rest → isContinuation c = false) :
    chars (b :: (cs ++ t)) = (b :: cs) :: chars t := by
  induction cs generalizing b with
  | nil =>
    rw [List.nil_append, chars]
    split
    · rename_i c cs rest hchars
      rw [hchars, if_neg (by rw [ht c cs rest hchars]; decide)]
    · rfl
  | cons c cs ih =>
    rw [List.cons_append, chars, ih c fun d hd => hcs d (List.mem_cons_of_mem c hd)]
    simp only [hcs c List.mem_cons_self, if_true]

/-- Sequences as a text has them: none is empty, and only the first may begin with a continuation byte. -/
structure Sequences (l : List Bytes) : Prop where
  whole : ∀ s ∈ l, ∃ b cs, s = b :: cs ∧ ∀ c ∈ cs, isContinuation c = true
  apart : ∀ s ∈ l.tail, ∀ b, s.head? = some b → isContinuation b = false

theorem sequences_chars (t : Text) : Sequences (chars t) := by
  induction t with
  | nil => exact ⟨nofun, nofun⟩
  | cons b t ih =>
    unfold chars
    split
    · rename_i c cs rest hchars
      rw [hchars] at ih
      obtain ⟨c', cs', hfirst, hcs⟩ := ih.whole (c :: cs) List.mem_cons_self
      obtain ⟨rfl, rfl⟩ := List.cons.inj hfirst
      have hrest := fun s hs => ih.whole s (List.mem_cons_of_mem _ hs)
      split
      · rename_i hcont
        have hjoined : ∀ x ∈ c :: cs, isContinuation x = true := List.forall_mem_cons.mpr ⟨hcont, hcs⟩
        exact ⟨List.forall_mem_cons.mpr ⟨⟨b, _, rfl, hjoined⟩, hrest⟩, ih.apart⟩
      · rename_i hcont
        refine ⟨List.forall_mem_cons.mpr ⟨⟨b, [], rfl, by simp⟩, ih.whole⟩,
          List.forall_mem_cons.mpr ⟨?_, ih.apart⟩⟩
        intro d hd
        rw [← Option.some.inj hd]
        exact Bool.eq_false_iff.mpr hcont
    · rename_i hno
      refine ⟨List.forall_mem_cons.mpr ⟨⟨b, [], rfl, by simp⟩, ih.whole⟩, ?_⟩
      cases hchars : chars t with
      | nil => exact nofun
      | cons s rest =>
        rw [hchars] at ih hno
        obtain ⟨c, cs, rfl, -⟩ := ih.whole s List.mem_cons_self
        exact absurd rfl (hno c cs rest)

theorem chars_sequences (l : List Bytes) (h : Sequences l) : chars l.flatten = l := by
  induction l with
  | nil => rfl
  | cons s l ih =>
    obtain ⟨b, cs, rfl, hcs⟩ := h.whole s List.mem_cons_self
    have hrest : chars l.flatten = l := by
      refine ih ⟨fun s hs => h.whole s (List.mem_cons_of_mem _ hs), fun s hs => ?_⟩
      exact h.apart s (List.mem_of_mem_tail hs)
    rw [List.flatten_cons, List.cons_append, chars_sequence b cs _ hcs, hrest]
    intro c cs' rest hchars
    rw [hrest] at hchars
    exact h.apart (c :: cs') (by rw [List.tail_cons, hchars]; exact List.mem_cons_self) c rfl

theorem chars_trim (t : Text) : chars (trim t) = trimBy isWhitespace (chars t) := by
  obtain ⟨s, e, hsplit, -, -⟩ := trimBy_spec isWhitespace (chars t)
  have hall := sequences_chars t
  refine chars_sequences _ ⟨fun c hc => hall.whole c ?_, fun c hc b hb => hall.apart c ?_ b hb⟩
  · rw [hsplit]
    simp [hc]
  · generalize trimBy isWhitespace (chars t) = kept at hsplit hc
    rw [hsplit]
    cases s with
    | nil =>
      cases kept with
      | nil => cases hc
      | cons k kept => exact List.mem_append_left _ hc
    | cons a s =>
      have hmem := List.mem_of_mem_tail hc
      simp [hmem]

theorem trim_trim (t : Text) : trim (trim t) = trim t := by
  have hsame : trimBy isWhitespace (trimBy isWhitespace (chars t)) = trimBy isWhitespace (chars t) :=
    trimBy_eq_self _ _ (trimBy_head _ _) (trimBy_last _ _)
  rw [trim, chars_trim, hsame, ← trim]

theorem mem_of_mem_trim (t : Text) (b : Byte) (h : b ∈ trim t) : b ∈ t := by
  obtain ⟨s, e, hsplit, -, -⟩ := trimBy_spec isWhitespace (chars t)
  rw [← chars_flatten t, hsplit]
  simp only [List.flatten_append, List.mem_append]
  exact .inl (.inr h)

/-! ## ASCII text -/

def isAsciiSpace (b : Byte) : Bool := isWhitespace [b]

theorem chars_of_ascii (t : Text) (h : Ascii t) : chars t = t.map fun b => [b] := by
  induction t with
  | nil => rfl
  | cons b t ih =>
    unfold chars
    rw [ih fun c hc => h c (List.mem_cons_of_mem _ hc)]
    cases t with
    | nil => rfl
    | cons c t =>
      have hlt : c < 128 := h c (by simp)
      have hc : isContinuation c = false := by grind [isContinuation]
      simp [hc]

theorem isUtf8_of_ascii (t : Text) (h : Ascii t) : isUtf8 t = true := by
  unfold isUtf8
  rw [chars_of_ascii t h, List.all_map, List.all_eq_true]
  intro b hb
  simpa [isScalar] using h b hb

theorem rdropWhile_map {α β : Type} (f : α → β) (p : β → Bool) (l : List α) :
    (l.map f).rdropWhile p = (l.rdropWhile (p ∘ f)).map f := by
  rw [List.rdropWhile, List.rdropWhile, ← List.map_reverse, List.dropWhile_map, List.map_reverse]

theorem trim_of_ascii (t : Text) (h : Ascii t) : trim t = trimBy isAsciiSpace t := by
  unfold trim
  rw [chars_of_ascii t h, trimBy, List.dropWhile_map, rdropWhile_map, trimBy]
  exact List.flatMap_singleton' _

theorem graphic_not_space (b : Byte) (h : isGraphic b = true) : isAsciiSpace b = false := by
  grind [isGraphic, isAsciiSpace, isWhitespace]

theorem trim_of_graphic (t : Text) (h : t.all isGraphic = true) : trim t = t := by
  have hgraphic := List.all_eq_true.mp h
  rw [trim_of_ascii t fun b hb => graphic_lt b (hgraphic b hb)]
  apply trimBy_eq_self
  · exact fun b hb => graphic_not_space b (hgraphic b (List.mem_of_mem_head? hb))
  · exact fun b hb => graphic_not_space b (hgraphic b (List.mem_of_getLast? hb))

theorem trim_space (t : Text) (h : Ascii t) : trim (ch ' ' :: t) = trim t := by
  have hall : Ascii (ch ' ' :: t) := by
    intro b hb
    rcases List.mem_cons.mp hb with rfl | hb
    · decide
    · exact h b hb
  rw [trim_of_ascii _ hall, trim_of_ascii t h, trimBy_cons_of_pos _ _ _ (by decide)]

/-! ## Text put together -/

theorem chars_cons (b : Byte) (t : Text) : ∃ cs rest, chars (b :: t) = (b :: cs) :: rest := by
  unfold chars
  split
  · split <;> exact ⟨_, _, rfl⟩
  · exact ⟨_, _, rfl⟩

theorem chars_cons_of (b c : Byte) (t cs : Bytes) (rest : List Bytes) (h : chars t = (c :: cs) :: rest) :
    chars (b :: t) = if isContinuation c then (b :: c :: cs) :: rest else [b] :: (c :: cs) :: rest := by
  rw [chars, h]

theorem chars_append (a : Text) (b : Byte) (t : Text) (hb : isContinuation b = false) :
    chars (a ++ b :: t) = chars a ++ chars (b :: t) := by
  induction a with
  | nil => rfl
  | cons c a ih =>
    cases a with
    | nil =>
      obtain ⟨cs, rest, hchars⟩ := chars_cons b t
      rw [List.cons_append, List.nil_append, chars_cons_of c b _ cs rest hchars, hb, hchars]
      rfl
    | cons d a =>
      obtain ⟨cs, rest, hchars⟩ := chars_cons d a
      rw [hchars, List.cons_append, List.cons_append] at ih
      rw [List.cons_append, List.cons_append, chars_cons_of c d _ cs _ ih, chars_cons_of c d _ cs rest hchars]
      split <;> rfl

theorem isScalar_cons (b : Byte) (s : Bytes) (h : isScalar (b :: s) = true) :
    (b < 0x80 → s = []) ∧ isContinuation b = false := by
  match s, h with
  | [], h => exact ⟨fun _ => rfl, by grind [isScalar, isContinuation]⟩
  | [c], h => constructor <;> grind [isScalar, isContinuation]
  | [c, d], h => constructor <;> grind [isScalar, isContinuation]
  | [c, d, e], h => constructor <;> grind [isScalar, isContinuation]

theorem isUtf8_cons (b : Byte) (t : Text) (hb : b < 0x80) : isUtf8 (b :: t) = isUtf8 t := by
  have hone : isScalar [b] = true := by simpa [isScalar] using hb
  cases t with
  | nil => simp [isUtf8, chars, hone]
  | cons c t =>
    obtain ⟨cs, rest, hchars⟩ := chars_cons c t
    unfold isUtf8
    rw [chars_cons_of b c _ cs rest hchars, hchars]
    cases hc : isContinuation c with
    | false => simp [hone]
    | true =>
      -- A continuation byte belongs neither behind an ASCII byte nor at the beginning.
      have hlong : isScalar (b :: c :: cs) = false :=
        Bool.eq_false_iff.mpr fun h => List.cons_ne_nil _ _ ((isScalar_cons b _ h).1 hb)
      have hfirst : isScalar (c :: cs) = false :=
        Bool.eq_false_iff.mpr fun h => by rw [(isScalar_cons c cs h).2] at hc; cases hc
      simp [hlong, hfirst]

theorem isUtf8_append (a : Text) (b : Byte) (t : Text) (hb : b < 0x80) :
    isUtf8 (a ++ b :: t) = (isUtf8 a && isUtf8 t) := by
  have hcont : isContinuation b = false := by grind [isContinuation]
  rw [← isUtf8_cons b t hb, isUtf8, isUtf8, isUtf8, chars_append a b t hcont, List.all_append]

theorem isUtf8_trim (t : Text) (h : isUtf8 t = true) : isUtf8 (trim t) = true := by
  obtain ⟨s, e, hsplit, -, -⟩ := trimBy_spec isWhitespace (chars t)
  unfold isUtf8 at h ⊢
  rw [hsplit, List.all_append, List.all_append] at h
  rw [chars_trim]
  simp only [Bool.and_eq_true] at h
  exact h.1.2

/-! ## Decoding with replacement -/

/-- U+FFFD -/
def replacement : Text := [0xEF, 0xBF, 0xBD]

/-- A sequence that is not complete: what is there, how many bytes are missing, and what the next one
may be. -/
structure Partial where
  seen : Bytes
  missing : Nat
  low : Byte
  high : Byte

/-- A byte that a sequence begins with, and what it then lacks. No other byte begins one. -/
def Partial.lead (b : Byte) : Option Partial :=
  if b < 0x80 then some ⟨[b], 0, 0x80, 0xBF⟩
  else if 0xC2 ≤ b && b ≤ 0xDF then some ⟨[b], 1, 0x80, 0xBF⟩
  else if 0xE0 ≤ b && b ≤ 0xEF then
    some ⟨[b], 2, if b = 0xE0 then 0xA0 else 0x80, if b = 0xED then 0x9F else 0xBF⟩
  else if 0xF0 ≤ b && b ≤ 0xF4 then
    some ⟨[b], 3, if b = 0xF0 then 0x90 else 0x80, if b = 0xF4 then 0x8F else 0xBF⟩
  else none

/-- What a byte gives that no sequence goes on with, where `next` is what then follows. -/
def beginSequence (b : Byte) (next : Option Partial → Text) : Text :=
  match Partial.lead b with
  | none => replacement ++ next none
  | some part => if part.missing = 0 then b :: next none else next (some part)

/-- Decodes what follows a sequence that is not complete. Where it breaks off, it is replaced as a whole,
and the byte that broke it may begin another. -/
def decodeFrom : Option Partial → Bytes → Text
  | none, [] => []
  | some _, [] => replacement
  | none, b :: rest => beginSequence b fun part => decodeFrom part rest
  | some part, b :: rest =>
    if part.low ≤ b ∧ b ≤ part.high then
      if part.missing = 1 then part.seen ++ b :: decodeFrom none rest
      else decodeFrom (some ⟨part.seen ++ [b], part.missing - 1, 0x80, 0xBF⟩) rest
    else replacement ++ beginSequence b fun part => decodeFrom part rest

/-- `bytes.decode(errors="replace")` -/
def decodeReplace (bytes : Bytes) : Text := decodeFrom none bytes

section Decode

variable (b : Byte) (rest : Bytes) (part : Partial)

theorem decodeFrom_lead (hlead : Partial.lead b = some part) (hmore : part.missing ≠ 0) :
    decodeFrom none (b :: rest) = decodeFrom (some part) rest := by
  simp only [decodeFrom, beginSequence, hlead, if_neg hmore]

theorem decodeFrom_more (hmore : part.missing ≠ 1) (hrange : part.low ≤ b ∧ b ≤ part.high) :
    decodeFrom (some part) (b :: rest) =
      decodeFrom (some ⟨part.seen ++ [b], part.missing - 1, 0x80, 0xBF⟩) rest := by
  rw [decodeFrom, if_pos hrange, if_neg hmore]

theorem decodeFrom_last (hlast : part.missing = 1) (hrange : part.low ≤ b ∧ b ≤ part.high) :
    decodeFrom (some part) (b :: rest) = part.seen ++ b :: decodeFrom none rest := by
  rw [decodeFrom, if_pos hrange, if_pos hlast]

end Decode

theorem continuation_bounds (b : Byte) (h : isContinuation b = true) : 0x80 ≤ b ∧ b ≤ 0xBF := by
  simpa [isContinuation] using h

theorem decodeFrom_scalar (s rest : Bytes) (h : isScalar s = true) :
    decodeFrom none (s ++ rest) = s ++ decodeFrom none rest := by
  match s, h with
  | [a], h =>
    have hlead : Partial.lead a = some ⟨[a], 0, 0x80, 0xBF⟩ := if_pos (by simpa [isScalar] using h)
    simp [decodeFrom, beginSequence, hlead]
  | [a, b], h =>
    simp only [isScalar, Bool.and_eq_true, decide_eq_true_eq] at h
    have hlead : Partial.lead a = some ⟨[a], 1, 0x80, 0xBF⟩ := by grind [Partial.lead]
    calc decodeFrom none (a :: b :: rest)
      _ = decodeFrom (some ⟨[a], 1, 0x80, 0xBF⟩) (b :: rest) := decodeFrom_lead a _ _ hlead Nat.one_ne_zero
      _ = a :: b :: decodeFrom none rest := decodeFrom_last b rest _ rfl (continuation_bounds b h.2)
  | [a, b, c], h =>
    simp only [isScalar, Bool.and_eq_true, Bool.or_eq_true, bne_iff_ne, decide_eq_true_eq] at h
    have hb := continuation_bounds b h.1.1.1.1.1
    have hlead : Partial.lead a =
        some ⟨[a], 2, if a = 0xE0 then 0xA0 else 0x80, if a = 0xED then 0x9F else 0xBF⟩ := by
      grind [Partial.lead]
    calc decodeFrom none (a :: b :: c :: rest)
      _ = decodeFrom (some _) (b :: c :: rest) := decodeFrom_lead a _ _ hlead (Nat.succ_ne_zero 1)
      _ = decodeFrom (some ⟨[a, b], 1, 0x80, 0xBF⟩) (c :: rest) :=
        decodeFrom_more b _ _ (Nat.succ_ne_self 1) (by grind)
      _ = a :: b :: c :: decodeFrom none rest :=
        decodeFrom_last c rest _ rfl (continuation_bounds c h.1.1.1.1.2)
  | [a, b, c, d], h =>
    simp only [isScalar, Bool.and_eq_true, Bool.or_eq_true, bne_iff_ne, decide_eq_true_eq] at h
    have hb := continuation_bounds b h.1.1.1.1.1.1
    have hlead : Partial.lead a =
        some ⟨[a], 3, if a = 0xF0 then 0x90 else 0x80, if a = 0xF4 then 0x8F else 0xBF⟩ := by
      grind [Partial.lead]
    calc decodeFrom none (a :: b :: c :: d :: rest)
      _ = decodeFrom (some _) (b :: c :: d :: rest) := decodeFrom_lead a _ _ hlead (Nat.succ_ne_zero 2)
      _ = decodeFrom (some ⟨[a, b], 2, 0x80, 0xBF⟩) (c :: d :: rest) :=
        decodeFrom_more b _ _ (by simp) (by grind)
      _ = decodeFrom (some ⟨[a, b, c], 1, 0x80, 0xBF⟩) (d :: rest) :=
        decodeFrom_more c _ _ (Nat.succ_ne_self 1) (continuation_bounds c h.1.1.1.1.1.2)
      _ = a :: b :: c :: d :: decodeFrom none rest :=
        decodeFrom_last d rest _ rfl (continuation_bounds d h.1.1.1.1.2)

theorem decodeReplace_of_utf8 (t : Text) (h : isUtf8 t = true) : decodeReplace t = t := by
  have hall : ∀ l : List Bytes, l.all isScalar = true → decodeFrom none l.flatten = l.flatten := by
    intro l hl
    induction l with
    | nil => rfl
    | cons s l ih =>
      rw [List.all_cons, Bool.and_eq_true] at hl
      rw [List.flatten_cons, decodeFrom_scalar s _ hl.1, ih hl.2]
  have hsame := hall (chars t) h
  rwa [chars_flatten] at hsame

/-! ## Lines -/

/-- A character at which `str.splitlines` breaks a line. -/
def isLineBoundary : Bytes → Bool
  | [a] => (10 ≤ a && a ≤ 13) || (0x1C ≤ a && a ≤ 0x1E)
  | [a, b] => a == 0xC2 && b == 0x85
  | [a, b, c] => a == 0xE2 && b == 0x80 && (c == 0xA8 || c == 0xA9)
  | _ => false

/-- The first of `str.splitlines`, of which an empty text has none. -/
def firstLine (t : Text) : Option Text :=
  if t.isEmpty then none
  else some ((chars t).takeWhile fun c => !isLineBoundary c).flatten

theorem field_no_boundary (b : Byte) (h : isFieldByte b = true) : isLineBoundary [b] = false := by
  grind [isFieldByte, isLineBoundary]

theorem firstLine_of_ascii (line rest : Text) (h : Ascii (line ++ 13 :: rest))
    (hline : line.all isFieldByte = true) : firstLine (line ++ 13 :: rest) = some line := by
  have hkept : ∀ b ∈ line, ((fun c => !isLineBoundary c) ∘ fun b => [b]) b = true := by
    intro b hb
    simp [field_no_boundary b (List.all_eq_true.mp hline b hb)]
  unfold firstLine
  rw [if_neg (by simp), chars_of_ascii _ h, List.takeWhile_map]
  have hline' : (line ++ 13 :: rest).takeWhile ((fun c => !isLineBoundary c) ∘ fun b => [b]) = line := by
    rw [List.takeWhile_append_of_pos hkept, List.takeWhile_cons_of_neg (by decide), List.append_nil]
  rw [hline']
  exact congrArg some (List.flatMap_singleton' line)

end Capcurl.Lib
