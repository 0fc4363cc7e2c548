import Capcurl.Framing
import Capcurl.Spec.Head

/-! # `RequestHead::parse` accepts exactly the grammar -/

namespace Capcurl.RequestHead

open Lib Http Spec

/-! ## The line splitter -/

theorem splitCrlfNext_lt (s : Bytes) (b s' : Bytes) (h : splitCrlfNext s = some (b, s')) :
    s'.length < s.length := by
  unfold splitCrlfNext at h
  split at h
  · simp at h
  · rename_i hne
    have hpos : 0 < s.length := List.length_pos_of_ne_nil (by simpa using hne)
    split at h
    · rename_i i hi
      have := findSeq_le crlf s i crlf_ne_nil hi
      simp only [Option.some.injEq, Prod.mk.injEq] at h
      rw [← h.2, List.length_drop]
      omega
    · simp only [Option.some.injEq, Prod.mk.injEq] at h
      rw [← h.2]
      exact hpos

theorem splitCrlf_line (line rest : Bytes) (h : findSeq crlf line = none) :
    splitCrlf (line ++ crlf ++ rest) = line :: splitCrlf rest := by
  refine fromFn_some splitCrlfNext List.length splitCrlfNext_lt (line ++ crlf ++ rest) rest line ?_
  have hne : (line ++ crlf ++ rest).isEmpty = false := by simp [crlf]
  have htake : (line ++ crlf ++ rest).take line.length = line := by simp
  have hdrop : (line ++ crlf ++ rest).drop (line.length + 2) = rest := by
    rw [show line.length + 2 = (line ++ crlf).length by simp, List.drop_left]
  simp only [splitCrlfNext, hne, Bool.false_eq_true, if_false, findSeq_crlf_line line rest h, htake,
    hdrop]

theorem splitCrlf_terminated (lines : List Bytes) (h : ∀ l ∈ lines, findSeq crlf l = none) :
    splitCrlf (terminated lines ++ crlf) = lines ++ [[]] := by
  induction lines with
  | nil => decide
  | cons line lines ih =>
    rw [terminated_cons, List.append_assoc, splitCrlf_line _ _ (h line (by simp)),
      ih fun l hl => h l (List.mem_cons_of_mem _ hl)]
    rfl

/-! ## The request line -/

theorem versionText_no_space (v : Version) : ch ' ' ∉ versionText v := by
  cases v <;> decide

theorem parseRequestLine_of_grammar (line m t : Text) (v : Version)
    (h : IsRequestLine line m t v) : parseRequestLine line = .ok (m, t, v) := by
  obtain ⟨hm, hne, ht, rfl⟩ := h
  have hmsp := token_ne m (ch ' ') hm (by decide)
  have htsp := graphic_not_mem t (ch ' ') ht (by decide)
  have hvsp := versionText_no_space v
  have hmt : m.all isTokenByte = true := hm.2
  unfold parseRequestLine
  rw [splitn_three m t _ hmsp htsp]
  simp only [List.isEmpty_eq_false_iff.mpr hm.1, List.isEmpty_eq_false_iff.mpr hne,
    Bool.or_self, Bool.false_eq_true, if_false, List.contains_eq_mem, htsp, hvsp, decide_false, hmt,
    ht, Bool.not_true, fromUtf8_of_ascii m (token_ascii m hm),
    fromUtf8_of_ascii t (graphic_ascii t ht)]
  cases v <;> rfl

theorem splitn_three_inv (line m t v : Bytes) (rest : List Bytes)
    (h : splitn (ch ' ') 3 line = m :: t :: v :: rest) :
    line = m ++ ch ' ' :: (t ++ ch ' ' :: v) ∧ ch ' ' ∉ m ∧ ch ' ' ∉ t := by
  unfold splitn at h
  split at h
  · simp at h
  · rename_i a tail ha
    obtain ⟨rfl, ham⟩ := (splitOnce_eq_some_iff _ _ _ _).mp ha
    rw [List.cons.injEq] at h
    obtain ⟨rfl, h⟩ := h
    unfold splitn at h
    split at h
    · simp at h
    · rename_i b tail' hb
      obtain ⟨rfl, hbm⟩ := (splitOnce_eq_some_iff _ _ _ _).mp hb
      simp only [splitn, List.cons.injEq] at h
      obtain ⟨rfl, rfl, -⟩ := h
      exact ⟨rfl, ham, hbm⟩

theorem parseRequestLine_grammar (line m t : Text) (v : Version)
    (h : parseRequestLine line = .ok (m, t, v)) : IsRequestLine line m t v := by
  unfold parseRequestLine at h
  split at h
  · rename_i method target version rest hsplit
    obtain ⟨rfl, -, -⟩ := splitn_three_inv _ _ _ _ _ hsplit
    simp only [throw_bind_else_eq_ok, Bool.or_eq_true, List.isEmpty_iff, not_or, Bool.not_eq_true',
      Bool.not_eq_false] at h
    obtain ⟨⟨hmne, htne⟩, -, hm, ht, hversion⟩ := h
    have hmutf := fromUtf8_of_ascii method (token_ascii method ⟨hmne, hm⟩)
    have htutf := fromUtf8_of_ascii target (graphic_ascii target ht)
    simp only [hmutf, htutf] at hversion
    have hresult : ∃ w, version = versionText w ∧ (method, target, w) = (m, t, v) := by
      split at hversion
      · rename_i h11
        exact ⟨.http11, h11, Except.ok.inj hversion⟩
      · split at hversion
        · rename_i h10
          exact ⟨.http10, h10, Except.ok.inj hversion⟩
        · cases hversion
    obtain ⟨w, rfl, heq⟩ := hresult
    obtain ⟨rfl, rfl, rfl⟩ : method = m ∧ target = t ∧ w = v := by simpa using heq
    exact ⟨⟨hmne, hm⟩, htne, ht, rfl⟩
  · cases h

theorem parseRequestLine_iff (line m t : Text) (v : Version) :
    parseRequestLine line = .ok (m, t, v) ↔ IsRequestLine line m t v :=
  ⟨parseRequestLine_grammar line m t v, parseRequestLine_of_grammar line m t v⟩

/-! ## A field line -/

theorem parseHeaderLine_iff (line : Bytes) (field : Header) :
    parseHeaderLine line = .ok field ↔ IsFieldLine line field := by
  constructor
  · intro h
    unfold parseHeaderLine at h
    split at h
    · cases h
    · rename_i name value hsplit
      obtain ⟨rfl, -⟩ := (splitOnce_eq_some_iff _ _ _ _).mp hsplit
      simp only [throw_bind_else_eq_ok, Bool.or_eq_true, List.isEmpty_iff, not_or,
        Bool.not_eq_true', Bool.not_eq_false] at h
      obtain ⟨⟨hne, hname⟩, hvalue, h⟩ := h
      have hfield := fieldValue_trimOws value hvalue
      rw [fromUtf8_of_ascii name (token_ascii name ⟨hne, hname⟩),
        fromUtf8_of_ascii _ (fieldValue_ascii _ hfield)] at h
      obtain rfl := Except.ok.inj h
      obtain ⟨before, after, hspec, hbefore, hafter⟩ := trimBy_spec isOws value
      refine ⟨⟨hne, hname⟩, hfield, before, after, hbefore, hafter, ?_⟩
      unfold trimOws
      rw [← hspec]
  · rintro ⟨hname, hvalue, before, after, hbefore, hafter, rfl⟩
    have htrim : trimOws (before ++ field.2 ++ after) = field.2 := by
      unfold trimOws
      rw [trimBy_append_of_all isOws _ _ _ hbefore hafter]
      exact trimOws_fieldValue field.2 hvalue
    have hall : field.1.all isTokenByte = true := hname.2
    unfold parseHeaderLine
    rw [splitOnce_append _ _ _ (token_ne field.1 (ch ':') hname (by decide))]
    simp only [List.isEmpty_eq_false_iff.mpr hname.1, hall, htrim, hvalue.1, Bool.not_true,
      Bool.or_self, Bool.false_eq_true, if_false, fromUtf8_of_ascii _ (token_ascii _ hname),
      fromUtf8_of_ascii _ (fieldValue_ascii _ hvalue)]
    rfl

/-! ## The field lines -/

theorem parseHeaders_blank (lines : List Bytes) (headers : List Header) :
    parseHeaders ([] :: lines) headers = .ok headers := by
  simp [parseHeaders, pure, Except.pure]

theorem fieldLine_not_fold (line : Bytes) (field : Header) (h : IsFieldLine line field) :
    line ≠ [] ∧ line.head? ≠ some (ch ' ') ∧ line.head? ≠ some (ch '\t') := by
  obtain ⟨hname, -, before, after, -, -, rfl⟩ := h
  obtain ⟨b, name, hcons⟩ := List.exists_cons_of_ne_nil hname.1
  have hb : isTchar b = true := List.all_eq_true.mp hname.2 b (by simp [hcons])
  have hspace : b ≠ ch ' ' := fun he => by simp [he, show isTchar (ch ' ') = false by decide] at hb
  have htab : b ≠ ch '\t' := fun he => by simp [he, show isTchar (ch '\t') = false by decide] at hb
  simp [hcons, hspace, htab]

theorem parseHeaders_field (line : Bytes) (lines : List Bytes) (headers hs : List Header)
    (hne : line ≠ []) :
    parseHeaders (line :: lines) headers = .ok hs ↔
      headers.length < maxHeaders ∧ ∃ field, IsFieldLine line field ∧
        parseHeaders lines (headers ++ [field]) = .ok hs := by
  rw [parseHeaders]
  simp only [List.isEmpty_eq_false_iff.mpr hne, Bool.false_eq_true, if_false,
    throw_bind_else_eq_ok, bind_eq_ok, parseHeaderLine_iff, ge_iff_le, not_le]
  constructor
  · rintro ⟨hroom, -, field, hfield, hrest⟩
    exact ⟨hroom, field, hfield, hrest⟩
  · rintro ⟨hroom, field, hfield, hrest⟩
    have hfold := fieldLine_not_fold line field hfield
    exact ⟨hroom, by simp [hfold.2], field, hfield, hrest⟩

theorem parseHeaders_iff (lines : List Bytes) (headers hs : List Header)
    (hne : ∀ l ∈ lines, l ≠ []) (hroom : headers.length ≤ maxHeaders) :
    parseHeaders (lines ++ [[]]) headers = .ok hs ↔
      ∃ fields, hs = headers ++ fields ∧ List.Forall₂ IsFieldLine lines fields ∧
        hs.length ≤ maxHeaders := by
  induction lines generalizing headers with
  | nil =>
    rw [List.nil_append, parseHeaders_blank, Except.ok.injEq]
    constructor
    · rintro rfl
      exact ⟨[], by simp, .nil, hroom⟩
    · rintro ⟨fields, rfl, hfields, -⟩
      rw [List.forall₂_nil_left_iff] at hfields
      simp [hfields]
  | cons line lines ih =>
    rw [List.cons_append, parseHeaders_field _ _ _ _ (hne line (by simp))]
    have hlines : ∀ l ∈ lines, l ≠ [] := fun l hl => hne l (List.mem_cons_of_mem _ hl)
    constructor
    · rintro ⟨hlt, field, hfield, hrest⟩
      obtain ⟨fields, rfl, hfields, hlen⟩ :=
        (ih (headers ++ [field]) hlines (by simp; omega)).mp hrest
      exact ⟨field :: fields, by simp, .cons hfield hfields, hlen⟩
    · rintro ⟨fields, rfl, hfields, hlen⟩
      obtain ⟨field, fields', hfield, hfields', rfl⟩ := List.forall₂_cons_left_iff.mp hfields
      have hlt : headers.length < maxHeaders := by
        simp only [List.length_append, List.length_cons] at hlen
        omega
      refine ⟨hlt, field, hfield, (ih (headers ++ [field]) hlines (by simp; omega)).mpr ?_⟩
      exact ⟨fields', by simp, hfields', hlen⟩

/-! ## The whole head -/

theorem parse_stages (buf : Bytes) (head : RequestHead) :
    RequestHead.parse buf = .ok head ↔
      buf.length ≤ maxHeadLen ∧ ∃ requestLine lines, splitCrlf buf = requestLine :: lines ∧
        IsRequestLine requestLine head.method head.target head.version ∧
        parseHeaders lines [] = .ok head.headers ∧
        (∀ h ∈ head.headers, eqIgnoreCase h.1 (ascii "upgrade") = false) ∧
        Unambiguous trim head.headers head.framing := by
  have hup : ∀ headers : List Header, (¬ (header headers (ascii "upgrade")).isSome = true) ↔
      ∀ h ∈ headers, eqIgnoreCase h.1 (ascii "upgrade") = false := by
    intro headers
    rw [← header_eq_none_iff, Bool.not_eq_true, Option.isSome_eq_false_iff, Option.isNone_iff_eq_none]
  unfold RequestHead.parse
  cases hsplit : splitCrlf buf with
  | nil => simp
  | cons requestLine lines =>
    simp only [throw_bind_else_eq_ok, bind_eq_ok, pure_eq_ok, hup, Framing.framingOf_iff, Prod.exists,
      parseRequestLine_iff, List.cons.injEq, gt_iff_lt, not_lt]
    constructor
    · rintro ⟨hlen, -, m, t, v, hline, headers, hheaders, framing, hframing, hno, rfl⟩
      exact ⟨hlen, requestLine, lines, ⟨rfl, rfl⟩, hline, hheaders, hno, hframing⟩
    · rintro ⟨hlen, _, _, ⟨rfl, rfl⟩, hline, hheaders, hno, hframing⟩
      have hne := List.isEmpty_eq_false_iff.mpr (requestLine_ne_nil _ _ _ _ hline)
      exact ⟨hlen, by simp [hne], _, _, _, hline, _, hheaders, _, hframing, hno, rfl⟩

theorem parseHeaders_sound (lines : List Bytes) (headers hs : List Header)
    (h : parseHeaders lines headers = .ok hs) (hroom : headers.length ≤ maxHeaders)
    (hgood : ∀ f ∈ headers, Token f.1 ∧ FieldValue f.2) :
    hs.length ≤ maxHeaders ∧ ∀ f ∈ hs, Token f.1 ∧ FieldValue f.2 := by
  induction lines generalizing headers with
  | nil =>
    obtain rfl := Except.ok.inj h
    exact ⟨hroom, hgood⟩
  | cons line lines ih =>
    by_cases hne : line = []
    · subst hne
      rw [parseHeaders_blank, Except.ok.injEq] at h
      subst h
      exact ⟨hroom, hgood⟩
    · obtain ⟨hlt, field, hfield, hrest⟩ := (parseHeaders_field line lines headers hs hne).mp h
      refine ih (headers ++ [field]) hrest (by simp; omega) ?_
      intro f hf
      rcases List.mem_append.mp hf with hf | hf
      · exact hgood f hf
      · rw [List.mem_singleton.mp hf]
        exact ⟨hfield.1, hfield.2.1⟩

theorem unambiguous_trim (headers : List Header) (framing : Framing)
    (h : ∀ f ∈ headers, FieldValue f.2) :
    Unambiguous trim headers framing ↔ Unambiguous id headers framing :=
  unambiguous_congr trim id headers framing fun f hf => trim_fieldValue f.2 (h f hf)

theorem parse_wellFormed (buf : Bytes) (head : RequestHead) (h : RequestHead.parse buf = .ok head) :
    WellFormed head := by
  obtain ⟨-, requestLine, lines, -, ⟨hm, htne, ht, -⟩, hheaders, hup, hframing⟩ :=
    (parse_stages buf head).mp h
  obtain ⟨hcount, hfields⟩ := parseHeaders_sound lines [] head.headers hheaders (by simp) (by simp)
  exact ⟨hm, ⟨htne, ht⟩, hfields, hcount, hup,
    (unambiguous_trim _ _ fun f hf => (hfields f hf).2).mp hframing⟩

theorem parse_of_isHead (buf : Bytes) (head : RequestHead) (h : IsHead buf head)
    (hlen : buf.length ≤ maxHeadLen) : RequestHead.parse buf = .ok head := by
  have hgood := isHead_wellFormed buf head h
  obtain ⟨requestLine, fieldLines, rfl, hline, hfields, hcount, hup, hframing⟩ := h
  have hlines := (fieldLines_forall _ _ _ (fun _ _ hl => hl) hfields).1
  have hsplit : splitCrlf (terminated (requestLine :: fieldLines) ++ crlf) =
      requestLine :: (fieldLines ++ [[]]) := by
    apply splitCrlf_terminated (requestLine :: fieldLines)
    intro l hl
    apply findSeq_crlf_of_no_cr
    rcases List.mem_cons.mp hl with rfl | hl
    · exact requestLine_no_cr _ _ _ _ hline
    · obtain ⟨field, hfield⟩ := hlines l hl
      exact fieldLine_no_cr l field hfield
  refine (parse_stages _ head).mpr ⟨hlen, requestLine, fieldLines ++ [[]], hsplit, hline, ?_, hup, ?_⟩
  · refine (parseHeaders_iff fieldLines [] head.headers ?_ (by simp)).mpr
      ⟨head.headers, rfl, hfields, hcount⟩
    intro l hl
    obtain ⟨field, hfield⟩ := hlines l hl
    exact fieldLine_ne_nil l field hfield
  · exact (unambiguous_trim _ _ fun f hf => (hgood.fields f hf).2).mpr hframing

theorem lines_of_head_end (buf : Bytes) (hend : findHeadEnd buf = some buf.length) :
    ∃ requestLine lines, splitCrlf buf = requestLine :: (lines ++ [[]]) ∧ (∀ l ∈ lines, l ≠ []) ∧
      buf = terminated (requestLine :: lines) ++ crlf := by
  obtain ⟨i, hi, hi4⟩ := Option.map_eq_some_iff.mp hend
  obtain ⟨lines, hne, hbuf, hno, htail⟩ := lines_of_blank_line buf i hi hi4
  obtain ⟨requestLine, lines, rfl⟩ := List.exists_cons_of_ne_nil hne
  refine ⟨requestLine, lines, ?_, htail, hbuf⟩
  rw [hbuf, splitCrlf_terminated _ hno]
  rfl

theorem isHead_of_parse (buf : Bytes) (head : RequestHead)
    (hend : findHeadEnd buf = some buf.length) (h : RequestHead.parse buf = .ok head) :
    IsHead buf head := by
  have hgood := parse_wellFormed buf head h
  obtain ⟨first, fieldLines, hsplit, hne, hbuf⟩ := lines_of_head_end buf hend
  obtain ⟨-, requestLine, lines, hsplit', hline, hheaders, -⟩ := (parse_stages buf head).mp h
  rw [hsplit, List.cons.injEq] at hsplit'
  obtain ⟨rfl, rfl⟩ := hsplit'
  obtain ⟨fields, hfields, hforall, -⟩ :=
    (parseHeaders_iff fieldLines [] head.headers hne (by simp)).mp hheaders
  rw [List.nil_append] at hfields
  subst hfields
  exact ⟨first, fieldLines, hbuf, hline, hforall, hgood.count, hgood.upgrade, hgood.framing⟩

/-- **Request heads.** A head that `read_head` cuts off is accepted exactly when the grammar has it,
with the one reading that the grammar gives it. The blank line that stops the field loop is the last
line of the buffer, and every line before it was read. What was parsed, written back, parses to
itself. -/
theorem parse_iff_grammar (buf : Bytes) (hlen : buf.length ≤ maxHeadLen)
    (hend : findHeadEnd buf = some buf.length) :
    (∀ head, RequestHead.parse buf = .ok head ↔ IsHead buf head) ∧
    (∀ head head', IsHead buf head → IsHead buf head' → head = head') ∧
    (∃ requestLine lines, splitCrlf buf = requestLine :: (lines ++ [[]]) ∧ (∀ l ∈ lines, l ≠ []) ∧
      buf = terminated (requestLine :: lines) ++ crlf) ∧
    (∀ buf' head, RequestHead.parse buf' = .ok head → (serialize head).length ≤ maxHeadLen →
      RequestHead.parse (serialize head) = .ok head) := by
  refine ⟨?_, ?_, lines_of_head_end buf hend, ?_⟩
  · intro head
    exact ⟨isHead_of_parse buf head hend, fun h => parse_of_isHead buf head h hlen⟩
  · intro head head' h h'
    have hparse := parse_of_isHead buf head h hlen
    rw [parse_of_isHead buf head' h' hlen] at hparse
    exact (Except.ok.inj hparse).symm
  · intro buf' head h hfits
    exact parse_of_isHead _ head (isHead_serialize head (parse_wellFormed buf' head h)) hfits

theorem parse_iff_grammar_padded :
    ∃ head, IsHead (ascii "GET /a HTTP/1.1\r\nAccept: \t text/plain \r\n\r\n") head ∧
      head.headers = [(ascii "Accept", ascii "text/plain")] := by
  have h := parse_iff_grammar (ascii "GET /a HTTP/1.1\r\nAccept: \t text/plain \r\n\r\n") (by decide)
    (by decide)
  refine ⟨⟨ascii "GET", ascii "/a", .http11, [(ascii "Accept", ascii "text/plain")], .none⟩, ?_, rfl⟩
  exact (h.1 _).mp (by decide)

end Capcurl.RequestHead
