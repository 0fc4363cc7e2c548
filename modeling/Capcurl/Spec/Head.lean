import Capcurl.Spec.Framing

/-! # The grammar of a request head -/

namespace Capcurl.Spec

open Lib Http

def Token (t : Text) : Prop := t ≠ [] ∧ t.all isTchar = true

def versionText : Version → Text
  | .http10 => ascii "HTTP/1.0"
  | .http11 => ascii "HTTP/1.1"

/-- `token SP 1*(%x21-7E) SP version` -/
def IsRequestLine (line method target : Text) (version : Version) : Prop :=
  Token method ∧ target ≠ [] ∧ target.all isGraphic = true ∧
    line = method ++ ch ' ' :: (target ++ ch ' ' :: versionText version)

/-- A field value: tabs and printable bytes, with no white space at its ends. -/
def FieldValue (v : Text) : Prop :=
  v.all isFieldByte = true ∧ (∀ b, v.head? = some b → isOws b = false) ∧
    ∀ b, v.getLast? = some b → isOws b = false

/-- `token ":" OWS value OWS` -/
def IsFieldLine (line : Text) (field : Header) : Prop :=
  Token field.1 ∧ FieldValue field.2 ∧
    ∃ before after, (∀ b ∈ before, isOws b = true) ∧ (∀ b ∈ after, isOws b = true) ∧
      line = field.1 ++ ch ':' :: (before ++ field.2 ++ after)

/-- A request line, its field lines and a blank line: what `head` says, and nothing more. -/
def IsHead (buf : Bytes) (head : RequestHead) : Prop :=
  ∃ requestLine fieldLines,
    buf = terminated (requestLine :: fieldLines) ++ crlf ∧
    IsRequestLine requestLine head.method head.target head.version ∧
    List.Forall₂ IsFieldLine fieldLines head.headers ∧
    head.headers.length ≤ maxHeaders ∧
    (∀ h ∈ head.headers, eqIgnoreCase h.1 (ascii "upgrade") = false) ∧
    Unambiguous id head.headers head.framing

/-- What holds of the parts of a head, however they were spaced. -/
structure WellFormed (head : RequestHead) : Prop where
  method : Token head.method
  target : head.target ≠ [] ∧ head.target.all isGraphic = true
  fields : ∀ h ∈ head.headers, Token h.1 ∧ FieldValue h.2
  count : head.headers.length ≤ maxHeaders
  upgrade : ∀ h ∈ head.headers, eqIgnoreCase h.1 (ascii "upgrade") = false
  framing : Unambiguous id head.headers head.framing

def serialize (head : RequestHead) : Bytes :=
  terminated ((head.method ++ ch ' ' :: (head.target ++ ch ' ' :: versionText head.version)) ::
    head.headers.map fun h => h.1 ++ ch ':' :: ch ' ' :: h.2) ++ crlf

/-! ## Facts about tokens and values -/

theorem token_ne (t : Text) (c : Byte) (h : Token t) (hc : isTchar c = false) : c ∉ t := by
  intro hmem
  have := List.all_eq_true.mp h.2 c hmem
  rw [hc] at this
  exact Bool.false_ne_true this

theorem graphic_not_mem (t : Text) (c : Byte) (h : t.all isGraphic = true)
    (hc : isGraphic c = false) : c ∉ t := by
  intro hmem
  have := List.all_eq_true.mp h c hmem
  rw [hc] at this
  exact Bool.false_ne_true this

theorem token_graphic (t : Text) (h : Token t) : t.all isGraphic = true :=
  List.all_eq_true.mpr fun b hb => graphic_of_tchar b (List.all_eq_true.mp h.2 b hb)

theorem token_ascii (t : Text) (h : Token t) : Ascii t := fun b hb =>
  graphic_lt b (graphic_of_tchar b (List.all_eq_true.mp h.2 b hb))

theorem graphic_ascii (t : Text) (h : t.all isGraphic = true) : Ascii t := fun b hb =>
  graphic_lt b (List.all_eq_true.mp h b hb)

theorem fieldValue_ascii (v : Text) (h : FieldValue v) : Ascii v := ascii_of_field v h.1

theorem asciiSpace_eq_ows (b : Byte) (h : isFieldByte b = true) : isAsciiSpace b = isOws b := by
  grind [isFieldByte, isAsciiSpace, isWhitespace, isOws, ch]

theorem trim_fieldValue (v : Text) (h : FieldValue v) : trim v = v := by
  obtain ⟨hall, hhead, hlast⟩ := h
  rw [trim_of_ascii v (ascii_of_field v hall)]
  apply trimBy_eq_self
  · intro b hb
    rw [asciiSpace_eq_ows b (List.all_eq_true.mp hall b (List.mem_of_mem_head? hb))]
    exact hhead b hb
  · intro b hb
    rw [asciiSpace_eq_ows b (List.all_eq_true.mp hall b (List.mem_of_getLast? hb))]
    exact hlast b hb

theorem trimOws_fieldValue (v : Text) (h : FieldValue v) : trimOws v = v :=
  trimBy_eq_self isOws v h.2.1 h.2.2

theorem fieldValue_trimOws (v : Text) (h : (trimOws v).all isFieldByte = true) :
    FieldValue (trimOws v) :=
  ⟨h, trimBy_head isOws v, trimBy_last isOws v⟩

theorem unambiguous_congr (norm norm' : Text → Text) (headers : List Header) (framing : Framing)
    (h : ∀ x ∈ headers, norm x.2 = norm' x.2) :
    Unambiguous norm headers framing ↔ Unambiguous norm' headers framing := by
  have key : ∀ n n' : Text → Text, (∀ x ∈ headers, n x.2 = n' x.2) →
      Unambiguous n headers framing → Unambiguous n' headers framing := by
    rintro n n' h (⟨k, hany, hall, hte, rfl⟩ | ⟨hcl, ⟨te, hfilter, hchunked⟩, rfl⟩ | hnone)
    · exact .inl ⟨k, hany, fun x hx hc => h x hx ▸ hall x hx hc, hte, rfl⟩
    · have hmem : te ∈ headers := (List.mem_filter.mp (hfilter ▸ List.mem_singleton_self te)).1
      exact .inr (.inl ⟨hcl, ⟨te, hfilter, h te hmem ▸ hchunked⟩, rfl⟩)
    · exact .inr (.inr hnone)
  exact ⟨key norm norm' h, key norm' norm fun x hx => (h x hx).symm⟩

/-! ## The length field that both halves write -/

def lengthField (bodyLen : Nat) : Header := (ascii "Content-Length", decimal bodyLen)

theorem lengthField_token (bodyLen : Nat) : Token (lengthField bodyLen).1 :=
  ⟨by simp [lengthField, ascii], by simp only [lengthField]; decide⟩

theorem fieldValue_of_graphic (v : Text) (h : v.all isGraphic = true) : FieldValue v := by
  have hows : ∀ b : Byte, isGraphic b = true → isOws b = false := by grind [isGraphic, isOws, ch]
  refine ⟨?_, fun b hb => hows b ?_, fun b hb => hows b ?_⟩
  · rw [List.all_eq_true]
    exact fun b hb => field_of_graphic b (List.all_eq_true.mp h b hb)
  · exact List.all_eq_true.mp h b (List.mem_of_mem_head? hb)
  · exact List.all_eq_true.mp h b (List.mem_of_getLast? hb)

theorem lengthField_value (bodyLen : Nat) : FieldValue (lengthField bodyLen).2 :=
  fieldValue_of_graphic _ (decimal_graphic bodyLen)

theorem lengthField_denotes (bodyLen : Nat) (h : bodyLen < u64Bound) :
    Denotes (lengthField bodyLen).2 (UInt64.ofNat bodyLen) := by
  refine ⟨decimal_ne_nil bodyLen, decimal_digits bodyLen, ?_⟩
  unfold lengthField
  rw [value_decimal, UInt64.toNat_ofNat_of_lt' h]

/-! ## Lines hold no CR -/

theorem no_cr_of_all (t : Text) (p : Byte → Bool) (hp : p 13 = false) (h : t.all p = true) :
    (13 : Byte) ∉ t := by
  intro hmem
  have := List.all_eq_true.mp h 13 hmem
  rw [hp] at this
  exact Bool.false_ne_true this

theorem requestLine_no_cr (line m t : Text) (v : Version) (h : IsRequestLine line m t v) :
    (13 : Byte) ∉ line := by
  obtain ⟨hm, -, ht, rfl⟩ := h
  have hm13 := no_cr_of_all m isTchar (by decide) hm.2
  have ht13 := no_cr_of_all t isGraphic (by decide) ht
  have hv13 : (13 : Byte) ∉ versionText v := by cases v <;> decide
  simp only [List.mem_append, List.mem_cons, not_or]
  exact ⟨hm13, by decide, ht13, by decide, hv13⟩

theorem requestLine_ne_nil (line m t : Text) (v : Version) (h : IsRequestLine line m t v) :
    line ≠ [] := by
  obtain ⟨-, -, -, rfl⟩ := h
  simp

theorem fieldLine_no_cr (line : Text) (field : Header) (h : IsFieldLine line field) :
    (13 : Byte) ∉ line := by
  obtain ⟨hname, hvalue, before, after, hbefore, hafter, rfl⟩ := h
  have hows : ∀ t : Text, (∀ b ∈ t, isOws b = true) → (13 : Byte) ∉ t := fun t ht =>
    no_cr_of_all t isOws (by decide) (List.all_eq_true.mpr ht)
  simp only [List.mem_append, List.mem_cons, not_or]
  exact ⟨no_cr_of_all _ isTchar (by decide) hname.2, by decide,
    ⟨hows before hbefore, no_cr_of_all _ isFieldByte (by decide) hvalue.1⟩, hows after hafter⟩

theorem fieldLine_ne_nil (line : Text) (field : Header) (h : IsFieldLine line field) :
    line ≠ [] := by
  obtain ⟨-, -, before, after, -, -, rfl⟩ := h
  simp

theorem fieldLines_forall (P : Text → Header → Prop) (lines : List Text) (fields : List Header)
    (hP : ∀ line field, IsFieldLine line field → P line field)
    (h : List.Forall₂ IsFieldLine lines fields) :
    (∀ l ∈ lines, ∃ f, P l f) ∧ ∀ f ∈ fields, ∃ l, P l f := by
  induction h with
  | nil => simp
  | cons hline _ ih =>
    have hhere := hP _ _ hline
    simp only [List.mem_cons, forall_eq_or_imp]
    exact ⟨⟨⟨_, hhere⟩, ih.1⟩, ⟨_, hhere⟩, ih.2⟩

/-! ## Heads and their parts -/

theorem isHead_wellFormed (buf : Bytes) (head : RequestHead) (h : IsHead buf head) :
    WellFormed head := by
  obtain ⟨requestLine, fieldLines, -, ⟨hm, htne, ht, -⟩, hfields, hcount, hup, hframing⟩ := h
  refine ⟨hm, ⟨htne, ht⟩, ?_, hcount, hup, hframing⟩
  intro field hfield
  obtain ⟨line, hline⟩ := (fieldLines_forall _ _ _ (fun _ _ hl => hl) hfields).2 field hfield
  exact ⟨hline.1, hline.2.1⟩

theorem isHead_serialize (head : RequestHead) (h : WellFormed head) :
    IsHead (serialize head) head := by
  refine ⟨_, _, rfl, ⟨h.method, h.target.1, h.target.2, rfl⟩, ?_, h.count, h.upgrade, h.framing⟩
  rw [List.forall₂_map_left_iff, List.forall₂_same]
  intro field hfield
  obtain ⟨hname, hvalue⟩ := h.fields field hfield
  exact ⟨hname, hvalue, [ch ' '], [], by simp [isOws], by simp, by simp⟩

theorem findHeadEnd_isHead (buf rest : Bytes) (head : RequestHead) (h : IsHead buf head) :
    findHeadEnd (buf ++ rest) = some buf.length := by
  obtain ⟨requestLine, fieldLines, rfl, hline, hfields, -⟩ := h
  have hlines := (fieldLines_forall _ _ _ (fun _ _ hl => hl) hfields).1
  apply findSeq_blank_line
  · intro l hl
    rcases List.mem_cons.mp hl with rfl | hl
    · exact requestLine_no_cr _ _ _ _ hline
    · obtain ⟨field, hfield⟩ := hlines l hl
      exact fieldLine_no_cr l field hfield
  · intro l hl
    obtain ⟨field, hfield⟩ := hlines l hl
    exact fieldLine_ne_nil l field hfield

end Capcurl.Spec
