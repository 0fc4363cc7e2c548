import Capcurl.Core.Exchange
import Capcurl.ReadLoop
import Capcurl.Spec.Head

/-! # The response codec: written by the daemon, read by the client -/

namespace Capcurl.ResponseCodec

open Lib Http Capcurl.Core Spec ReadLoop

/-! ## What is encoded -/

/-- A head with a three-digit status, whose fields are tokens and printable values. -/
structure Encodable (head : ResponseHead) : Prop where
  status : 100 ≤ head.status.toNat ∧ head.status.toNat ≤ 999
  fields : ∀ h ∈ head.headers, Token h.1 ∧ h.2.all isFieldByte = true

def statusLine (head : ResponseHead) : Text :=
  ascii "HTTP/1.1" ++ ch ' ' :: (decimal head.status.toNat ++ ch ' ' :: sanitizeReason head.reason)

def closeField : Header := (ascii "Connection", ascii "close")

def writtenFields (head : ResponseHead) (bodyLen : Nat) : List Header :=
  head.headers ++ [lengthField bodyLen, closeField]

def readFields (head : ResponseHead) (bodyLen : Nat) : List Header :=
  (head.headers.map fun h => (h.1, trim h.2)) ++ [lengthField bodyLen, closeField]

theorem encode_lines (head : ResponseHead) (bodyLen : Nat) :
    head.encode bodyLen =
      terminated (statusLine head :: (writtenFields head bodyLen).map headerLine) ++ crlf := by
  simp [ResponseHead.encode, terminated, writtenFields, statusLine, lengthField, closeField, headerLine,
    List.flatMap_map, ascii, ch]

theorem encode_length (head : ResponseHead) (bodyLen : Nat) (f : Header) (h : f ∈ head.headers) :
    f.2.length ≤ (head.encode bodyLen).length := by
  obtain ⟨a, b, hab⟩ := List.append_of_mem h
  simp only [ResponseHead.encode, hab, List.flatMap_append, List.flatMap_cons, List.length_append, headerLine]
  omega

theorem sanitizeReason_field (reason : Text) : (sanitizeReason reason).all isFieldByte = true := by
  have hclass : ∀ b : Byte, (isGraphic b || b == ch ' ') = true → isFieldByte b = true := by
    grind [isGraphic, isFieldByte, ch]
  unfold sanitizeReason
  simp only
  split
  · decide
  · rw [List.all_eq_true]
    intro b hb
    exact hclass b (List.mem_filter.mp (List.mem_of_mem_take hb)).2

theorem statusLine_field (head : ResponseHead) : (statusLine head).all isFieldByte = true := by
  have hdigits : (decimal head.status.toNat).all isFieldByte = true := by
    rw [List.all_eq_true]
    exact fun b hb => field_of_graphic b (digit_graphic b (decimal_digits _ b hb))
  simp only [statusLine, List.all_append, List.all_cons, hdigits, sanitizeReason_field, Bool.and_true]
  decide

theorem writtenFields_good (head : ResponseHead) (bodyLen : Nat) (h : Encodable head) :
    ∀ f ∈ writtenFields head bodyLen, Token f.1 ∧ f.2.all isFieldByte = true := by
  intro f hf
  rcases List.mem_append.mp hf with hf | hf
  · exact h.fields f hf
  · rcases List.mem_pair.mp hf with rfl | rfl
    · exact ⟨lengthField_token bodyLen, (lengthField_value bodyLen).1⟩
    · exact ⟨⟨by decide, by decide⟩, by decide⟩

theorem headerLine_field (f : Header) (h : Token f.1 ∧ f.2.all isFieldByte = true) :
    (headerLine f).all isFieldByte = true := by
  have hname : f.1.all isFieldByte = true := by
    rw [List.all_eq_true]
    exact fun b hb => field_of_graphic b (graphic_of_tchar b (List.all_eq_true.mp h.1.2 b hb))
  simp only [headerLine, List.all_append, hname, h.2, Bool.and_true]
  decide

theorem lines_field (head : ResponseHead) (bodyLen : Nat) (h : Encodable head) :
    ∀ l ∈ statusLine head :: (writtenFields head bodyLen).map headerLine, l.all isFieldByte = true := by
  intro l hl
  rcases List.mem_cons.mp hl with rfl | hl
  · exact statusLine_field head
  · obtain ⟨f, hf, rfl⟩ := List.mem_map.mp hl
    exact headerLine_field f (writtenFields_good head bodyLen h f hf)

theorem encode_ascii (head : ResponseHead) (bodyLen : Nat) (h : Encodable head) :
    Ascii (head.encode bodyLen) := by
  rw [encode_lines]
  intro b hb
  rcases List.mem_append.mp hb with hb | hb
  · obtain ⟨l, hl, hb⟩ := List.mem_flatMap.mp hb
    rcases List.mem_append.mp hb with hb | hb
    · exact ascii_of_field l (lines_field head bodyLen h l hl) b hb
    · exact crlf_ascii b hb
  · exact crlf_ascii b hb

theorem encode_blank (head : ResponseHead) (bodyLen : Nat) :
    ∃ fields, head.encode bodyLen = statusLine head ++ crlf ++ fields ++ (crlf ++ crlf) := by
  refine ⟨terminated ((head.headers ++ [lengthField bodyLen]).map headerLine) ++ headerLine closeField, ?_⟩
  rw [encode_lines]
  simp [terminated, writtenFields]

theorem findHeadEnd_encode (head : ResponseHead) (bodyLen : Nat) (rest : Bytes) (h : Encodable head) :
    findHeadEnd (head.encode bodyLen ++ rest) = some (head.encode bodyLen).length := by
  rw [encode_lines]
  apply findSeq_blank_line
  · exact fun l hl => no_cr_of_all l isFieldByte (by decide) (lines_field head bodyLen h l hl)
  · intro l hl
    obtain ⟨f, -, rfl⟩ := List.mem_map.mp hl
    simp [headerLine, ascii]

/-! ## What is read back -/

theorem parseFields_line (f : Header) (lines : List Text) (headers : List Header)
    (h : Token f.1 ∧ f.2.all isFieldByte = true) :
    parseFields (headerLine f :: lines) headers = parseFields lines (headers ++ [(f.1, trim f.2)]) := by
  have hcolon := token_ne f.1 (ch ':') h.1 (by decide)
  have hline : headerLine f = f.1 ++ ch ':' :: (ch ' ' :: f.2) := by simp [headerLine, ascii, ch]
  have hname := trim_of_graphic f.1 (token_graphic f.1 h.1)
  have hvalue := trim_space f.2 (ascii_of_field f.2 h.2)
  rw [parseFields, hline, if_neg (by simp), splitOnce_append _ _ _ hcolon]
  simp only [hname, hvalue]

theorem parseFields_lines (fields : List Header) (rest : List Text) (headers : List Header)
    (h : ∀ f ∈ fields, Token f.1 ∧ f.2.all isFieldByte = true) :
    parseFields (fields.map headerLine ++ [] :: rest) headers =
      .ok (headers ++ fields.map fun f => (f.1, trim f.2)) := by
  induction fields generalizing headers with
  | nil => simp [parseFields, pure, Except.pure]
  | cons f fields ih =>
    rw [List.map_cons, List.cons_append, parseFields_line f _ _ (h f (by simp)),
      ih _ fun g hg => h g (List.mem_cons_of_mem _ hg)]
    simp

theorem readFields_eq (head : ResponseHead) (bodyLen : Nat) :
    (writtenFields head bodyLen).map (fun f => (f.1, trim f.2)) = readFields head bodyLen := by
  have hdecimal := trim_of_graphic _ (decimal_graphic bodyLen)
  have hclose : trim (ascii "close") = ascii "close" := trim_of_graphic _ (by decide)
  simp [writtenFields, readFields, lengthField, closeField, hdecimal, hclose]

theorem parse_encode (head : ResponseHead) (bodyLen : Nat) (h : Encodable head) :
    parseStatusAndHeaders (head.encode bodyLen) =
      .ok (head.status, sanitizeReason head.reason, readFields head bodyLen) := by
  have hlines := lines_field head bodyLen h
  have hutf : fromUtf8 (head.encode bodyLen) = some (head.encode bodyLen) :=
    fromUtf8_of_ascii _ (encode_ascii head bodyLen h)
  have hsplit : splitOnCrlf (head.encode bodyLen) =
      statusLine head :: ((writtenFields head bodyLen).map headerLine ++ [[], []]) := by
    rw [encode_lines, splitOnCrlf_terminated]
    · have hblank : splitOnCrlf crlf = [[], []] := by decide
      rw [hblank]
      rfl
    · exact fun l hl => findSeq_crlf_of_no_cr l (no_cr_of_all l isFieldByte (by decide) (hlines l hl))
  have hstatus : splitn (ch ' ') 3 (statusLine head) =
      [ascii "HTTP/1.1", decimal head.status.toNat, sanitizeReason head.reason] :=
    splitn_three _ _ _ (by decide) (graphic_not_mem _ _ (decimal_graphic _) (by decide))
  have hcode := parseUnsigned_decimal 65536 head.status.toNat (by have := h.status.2; omega)
  have hfields := parseFields_lines (writtenFields head bodyLen) [[]] [] (writtenFields_good head bodyLen h)
  rw [List.nil_append, readFields_eq] at hfields
  unfold parseStatusAndHeaders
  rw [hutf]
  simp only [hsplit, hstatus, List.headD_cons, ne_eq, not_true_eq_false, false_and, if_false,
    List.getElem?_cons_succ, List.getElem?_cons_zero, hcode, hfields]
  simp [bind, Except.bind, pure, Except.pure]

theorem declaredLength_encode (head : ResponseHead) (bodyLen : Nat)
    (hno : ∀ f ∈ head.headers, eqIgnoreCase f.1 (ascii "content-length") = false) :
    header (readFields head bodyLen) (ascii "content-length") = some (decimal bodyLen) := by
  unfold readFields
  rw [header_append]
  · rfl
  · intro f hf
    obtain ⟨g, hg, rfl⟩ := List.mem_map.mp hf
    exact hno g hg

/-! ## Reading a response -/

section Read

def responseOf (head : ResponseHead) (body : Bytes) : Response where
  status := head.status
  reason := sanitizeReason head.reason
  headers := readFields head body.length
  body := body
  refused := (header (readFields head body.length) (ascii "x-capcurl-refused")).isSome

variable (head : ResponseHead) (body : Bytes)

theorem responseHeadCheck_err (q : Bytes) (e : Halt CoreError)
    (h : responseHeadCheck q = some (.error e)) : ∃ e', e = .err e' := by
  unfold responseHeadCheck at h
  split at h
  · cases h
  · split at h
    · cases h
      exact ⟨_, rfl⟩
    · cases h

theorem responseHeadCheck_part (henc : Encodable head) (q x : Bytes)
    (hq : q ++ x = head.encode body.length ++ body) (v : Except (Halt CoreError) (Nat × Bytes))
    (hv : responseHeadCheck q = some v) :
    ((head.encode body.length).length ≤ q.length ∧ v = .ok ((head.encode body.length).length, q)) ∨
      (q.length < (head.encode body.length).length ∧ maxHeadLen < q.length ∧
        v = .error (.err (.http .headTooLarge))) := by
  have hend := findHeadEnd_part _ q x _ (findHeadEnd_encode head body.length body henc) hq
  unfold responseHeadCheck at hv
  rw [hend] at hv
  split at hv
  · rename_i stop hstop
    split at hstop
    · rename_i hle
      rw [← Option.some.inj hstop] at hv
      exact .inl ⟨hle, (Option.some.inj hv).symm⟩
    · cases hstop
  · rename_i hstop
    split at hstop
    · cases hstop
    · rename_i hlt
      split at hv
      · rename_i hlarge
        exact .inr ⟨by omega, hlarge, (Option.some.inj hv).symm⟩
      · cases hv

/-- No field of the head has the name that carries the length. -/
def NoLength (head : ResponseHead) : Prop :=
  ∀ f ∈ head.headers, eqIgnoreCase f.1 (ascii "content-length") = false

theorem declaredLength_read (hno : NoLength head) (hlen : body.length < u64Bound) :
    declaredLength (readFields head body.length) = .ok body.length := by
  unfold declaredLength
  rw [declaredLength_encode head body.length hno]
  simp only [trim_of_graphic _ (decimal_graphic body.length),
    parseUnsigned_decimal u64Bound body.length hlen]
  rfl

theorem declaredLength_overflow (hno : NoLength head) (hlen : u64Bound ≤ body.length) :
    declaredLength (readFields head body.length) = .error (.http .badContentLength) := by
  have hparse : parseUnsigned 10 u64Bound (decimal body.length) = none := by
    rw [parseUnsigned_digits 10 u64Bound _ (decimal_ne_nil _) (decimal_no_plus _)
      fun b hb => digitValue_of_digit b (decimal_digits _ b hb), value_decimal, if_neg (by omega)]
  unfold declaredLength
  rw [declaredLength_encode head body.length hno]
  simp only [trim_of_graphic _ (decimal_graphic body.length), hparse]
  rfl

theorem readResponse_tail (henc : Encodable head) (hno : NoLength head)
    (hlen : body.length < u64Bound) (s s' : Stream) (rest : Bytes)
    (hrun : readLoop responseHeadCheck
      (fun _ => .handshake (ascii "capability closed before a complete response head")) [] s =
        .ok ((head.encode body.length).length, head.encode body.length ++ rest) s') :
    readResponse s =
      (readLoop (lengthCheck body.length) (fun body' => closedAfter body'.length body.length) rest >>=
        fun body' => pure { responseOf head body with body := body' }) s' := by
  unfold readResponse
  rw [run_bind_ok _ _ _ _ _ hrun]
  simp only [List.take_left, List.drop_left, parse_encode head body.length henc, ofExcept_ok_bind,
    declaredLength_read head body hno hlen]
  rfl

theorem readResponse_rest (henc : Encodable head) (hno : NoLength head)
    (hlen : body.length < u64Bound) (s : Stream) (rest : Bytes) (unread : List Bytes)
    (hrun : readLoop responseHeadCheck
      (fun _ => .handshake (ascii "capability closed before a complete response head")) [] s =
        .ok ((head.encode body.length).length, head.encode body.length ++ rest)
          { s with reads := unread })
    (hne : ∀ r ∈ unread, r ≠ []) (hrest : rest ++ unread.flatten = body) :
    ∃ unread', readResponse s = .ok (responseOf head body) { s with reads := unread' } := by
  obtain ⟨unread', hbody⟩ := readLength_ok body.length
    (fun body' => closedAfter body'.length body.length) rest { s with reads := unread } hne
    (by simp only [hrest]; omega)
  refine ⟨unread', ?_⟩
  rw [readResponse_tail head body henc hno hlen s _ _ hrun, run_bind_ok _ _ _ _ _ hbody]
  simp only [hrest, List.take_length]
  rfl

theorem readResponse_cases (henc : Encodable head) (hno : NoLength head) (s : Stream) (x : Bytes)
    (hne : ∀ r ∈ s.reads, r ≠ []) (hpart : s.reads.flatten ++ x = head.encode body.length ++ body) :
    (∃ e s', readResponse s = .error (.err e) s') ∨
      (x = [] ∧ ∃ s', readResponse s = .ok (responseOf head body) s') := by
  rcases readLoop_cases responseHeadCheck
      (fun _ => .handshake (ascii "capability closed before a complete response head")) [] s hne with
    ⟨_, unread, herror, ⟨e, rfl⟩ | ⟨q, hq⟩⟩ | ⟨b, seen, unread, hrun, hcheck, hseen, hsuf⟩
  · exact .inl ⟨e, _, run_bind_error _ _ _ _ _ herror⟩
  · obtain ⟨e, rfl⟩ := responseHeadCheck_err q _ hq
    exact .inl ⟨e, _, run_bind_error _ _ _ _ _ herror⟩
  · rw [List.nil_append] at hcheck
    have hq : seen ++ (unread.flatten ++ x) = head.encode body.length ++ body := by
      rw [← List.append_assoc, hseen, hpart]
    rcases responseHeadCheck_part head body henc seen _ hq _ hcheck with ⟨hle, hv⟩ | ⟨-, -, hv⟩
    · obtain ⟨hsplit, hrest⟩ := part_of_head _ _ _ _ hq hle
      rw [Except.ok.inj hv, hsplit] at hrun
      rcases Nat.lt_or_ge body.length u64Bound with hlen | hbig
      · have hne' : ∀ r ∈ unread, r ≠ [] := fun r hr => hne r (hsuf.subset hr)
        have hlens := congrArg List.length hrest
        simp only [List.length_append] at hlens
        rcases Nat.eq_zero_or_pos x.length with hx | hx
        · rw [List.length_eq_zero_iff] at hx
          subst hx
          rw [List.append_nil] at hrest
          obtain ⟨unread', hok⟩ := readResponse_rest head body henc hno hlen s _ _ hrun hne' hrest
          exact .inr ⟨rfl, _, hok⟩
        · rw [readResponse_tail head body henc hno hlen s _ _ hrun]
          obtain ⟨e, unread', herror⟩ := readLength_short body.length
            (fun body' => closedAfter body'.length body.length)
            (seen.drop (head.encode body.length).length) { s with reads := unread } hne'
            (by rw [List.length_append]; simp at hlens ⊢; omega)
          exact .inl ⟨e, _, run_bind_error _ _ _ _ _ herror⟩
      · left
        unfold readResponse
        rw [run_bind_ok _ _ _ _ _ hrun]
        simp only [List.take_left, parse_encode head body.length henc, ofExcept_ok_bind,
          declaredLength_overflow head body hno hbig]
        exact ⟨_, _, rfl⟩
    · cases hv

theorem readResponse_ok (henc : Encodable head) (hno : NoLength head) (hlen : body.length < u64Bound)
    (hfits : (head.encode body.length).length ≤ maxHeadLen + 1) (s : Stream)
    (hne : ∀ r ∈ s.reads, r ≠ []) (hall : s.reads.flatten = head.encode body.length ++ body) :
    ∃ s', readResponse s = .ok (responseOf head body) s' := by
  have hvalue : ∀ seen rest, seen ++ rest = s.reads.flatten → ∀ v, responseHeadCheck ([] ++ seen) = some v →
      v = .ok ((head.encode body.length).length, [] ++ seen) := by
    intro seen rest hseen v hv
    rcases responseHeadCheck_part head body henc seen rest (hseen.trans hall) v hv with
      ⟨-, h⟩ | ⟨hlt, hlarge, -⟩
    · exact h
    · omega
  have hend : responseHeadCheck ([] ++ s.reads.flatten) ≠ none := by
    rw [List.nil_append, hall, responseHeadCheck, findHeadEnd_encode head body.length body henc]
    simp
  obtain ⟨seen, unread, hrun, hcheck, hseen, hsuf⟩ := readLoop_decides responseHeadCheck
    (fun _ => .handshake (ascii "capability closed before a complete response head")) [] s
    (fun q => ((head.encode body.length).length, q)) hne hend hvalue
  rw [List.nil_append] at hcheck hrun
  have hq : seen ++ unread.flatten = head.encode body.length ++ body := hseen.trans hall
  rcases responseHeadCheck_part head body henc seen _ hq _ hcheck with ⟨hle, -⟩ | ⟨-, -, hv⟩
  · obtain ⟨hsplit, hrest⟩ := part_of_head _ _ _ _ hq hle
    rw [hsplit] at hrun
    obtain ⟨unread', hok⟩ := readResponse_rest head body henc hno hlen s _ _ hrun
      (fun r hr => hne r (hsuf.subset hr)) hrest
    exact ⟨_, hok⟩
  · cases hv

theorem readResponse_fails (henc : Encodable head)
    (hlarge : maxHeadLen + 1 < (head.encode body.length).length) (s : Stream) :
    ∃ reads, Segmented maxRead (head.encode body.length ++ body) reads ∧
      ∃ e s', readResponse { s with reads } = .error e s' := by
  obtain ⟨first, hfirst⟩ := exists_segmented maxRead (by decide)
    ((head.encode body.length ++ body).take (maxHeadLen + 1))
  obtain ⟨next, hnext⟩ := exists_segmented maxRead (by decide)
    ((head.encode body.length ++ body).drop (maxHeadLen + 1))
  have hall := segmented_append _ _ _ _ _ hfirst hnext
  rw [List.take_append_drop] at hall
  refine ⟨first ++ next, hall, .err (.http .headTooLarge), { s with reads := next }, ?_⟩
  have hnone : ∀ n, n ≤ maxHeadLen + 1 →
      findHeadEnd ((head.encode body.length ++ body).take n) = none := by
    intro n hn
    rw [findHeadEnd_part _ _ _ _ (findHeadEnd_encode head body.length body henc)
      (List.take_append_drop n _), if_neg]
    rw [List.length_take, List.length_append]
    omega
  have hlong : maxHeadLen + 1 ≤ (head.encode body.length ++ body).length := by
    rw [List.length_append]
    omega
  have hfeed : feed responseHeadCheck [] (first ++ next) =
      .stopped (.error (.err (.http .headTooLarge)))
        ((head.encode body.length ++ body).take (maxHeadLen + 1)) next := by
    rw [feed_append _ _ _ _ hfirst.nonempty, hfirst.flatten, List.nil_append]
    · apply feed_stop
      unfold responseHeadCheck
      rw [hnone _ (Nat.le_refl _)]
      simp only [List.length_take]
      rw [if_pos (by omega)]
    · intro n hn
      rw [hfirst.flatten, List.length_take] at hn
      rw [hfirst.flatten, List.nil_append, List.take_take, Nat.min_eq_left (by omega),
        responseHeadCheck, hnone n (by omega)]
      simp only [List.length_take]
      rw [if_neg (by omega)]
  apply run_bind_error
  unfold readLoop
  rw [hfeed]

end Read

/-! ## The codec -/

theorem not_length_of_relayed (name : Text) (connection : Option Text)
    (h : isHopByHop name connection = false) : eqIgnoreCase name (ascii "content-length") = false := by
  by_contra hsame
  rw [Bool.not_eq_false, eqIgnoreCase_iff] at hsame
  have hstatic : hopByHop.contains (lowercase name) = true := by
    rw [hsame]
    decide
  simp only [isHopByHop, hstatic, if_true] at h
  cases h

/-- **The response codec** loses nothing, and nothing that was cut short passes for a response. -/
theorem response_round_trip (head : ResponseHead) (connection : Option Text) (body : Bytes)
    (hstatus : 100 ≤ head.status.toNat ∧ head.status.toNat ≤ 999)
    (hfields : ∀ f ∈ head.headers, Token f.1 ∧ isHopByHop f.1 connection = false ∧
      f.2.all isFieldByte = true)
    (hlen : body.length < u64Bound) :
    findHeadEnd (head.encode body.length ++ body) = some (head.encode body.length).length ∧
    parseStatusAndHeaders (head.encode body.length) =
      .ok (head.status, sanitizeReason head.reason,
        (head.headers.map fun f => (f.1, trim f.2)) ++
          [(ascii "Content-Length", decimal body.length), (ascii "Connection", ascii "close")]) ∧
    (∀ fields, parseStatusAndHeaders (head.encode body.length) =
        .ok (head.status, sanitizeReason head.reason, fields) →
      header fields (ascii "content-length") = some (decimal body.length) ∧
        declaredLength fields = .ok body.length) ∧
    ∀ cut x, cut ++ x = head.encode body.length ++ body → x ≠ [] → ∀ s : Stream,
      Segmented maxRead cut s.reads → ∃ e s', readResponse s = .error (.err e) s' := by
  have henc : Encodable head := ⟨hstatus, fun f hf => ⟨(hfields f hf).1, (hfields f hf).2.2⟩⟩
  have hno : NoLength head := fun f hf => not_length_of_relayed f.1 connection (hfields f hf).2.1
  refine ⟨findHeadEnd_encode head body.length body henc, parse_encode head body.length henc, ?_, ?_⟩
  · intro fields hparse
    rw [parse_encode head body.length henc] at hparse
    simp only [Except.ok.injEq, Prod.mk.injEq, true_and] at hparse
    rw [← hparse]
    exact ⟨declaredLength_encode head body.length hno, declaredLength_read head body hno hlen⟩
  · intro cut x hcut hx s hs
    have hpart : s.reads.flatten ++ x = head.encode body.length ++ body := by rw [hs.flatten, hcut]
    rcases readResponse_cases head body henc hno s x hs.nonempty hpart with herror | ⟨hnil, -⟩
    · exact herror
    · exact absurd hnil hx

theorem response_round_trip_padded :
    let head : ResponseHead := ⟨200, ascii "OK", [(ascii "X-A", ascii " b\t")]⟩
    parseStatusAndHeaders (head.encode 2) =
        .ok (200, ascii "OK", [(ascii "X-A", ascii "b"), (ascii "Content-Length", ascii "2"),
          (ascii "Connection", ascii "close")]) ∧
      ∀ s : Stream, Segmented maxRead (head.encode 2 ++ ascii "h") s.reads →
        ∃ e s', readResponse s = .error (.err e) s' := by
  intro head
  have hfields : ∀ f ∈ head.headers, Token f.1 ∧ isHopByHop f.1 (some (ascii "x-b, close")) = false ∧
      f.2.all isFieldByte = true := by
    intro f hf
    rw [List.mem_singleton.mp hf]
    exact ⟨⟨by decide, by decide⟩, by decide, by decide⟩
  have h := response_round_trip head _ (ascii "hi") ⟨by decide, by decide⟩ hfields (by decide)
  refine ⟨h.2.1.trans (by decide +kernel), h.2.2.2 _ (ascii "i") ?_ (by decide)⟩
  rw [List.append_assoc]
  rfl

end Capcurl.ResponseCodec
