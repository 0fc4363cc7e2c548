import Capcurl.Calls
import Capcurl.Calls.Connection
import Capcurl.Script.Mint

/-! # The script speaks the client's protocol -/

namespace Capcurl.Script

open Lib Http Policy Capcurl.Core Session Agreement ResponseCodec Delivery Calls

/-! ## Frames -/

/-- A frame: its type and its payload. -/
abbrev Frame := Nat × Bytes

def argFrame (value : Text) : Frame := (argType, value)

def wire (frames : List Frame) : Bytes := frames.flatMap fun f => packHeader f.1 f.2.length ++ f.2

/-- The numbers of a frame fit its header. -/
def Packs (f : Frame) : Prop := f.1 < 2 ^ 32 ∧ f.2.length < 2 ^ 32

instance (f : Frame) : Decidable (Packs f) := inferInstanceAs (Decidable (_ ∧ _))

theorem packHeader_length (fieldType length : Nat) : (packHeader fieldType length).length = 8 := by
  rw [packHeader, List.length_append, encodeLE_length, encodeLE_length]

theorem packHeader_type (fieldType length : Nat) (h : fieldType < 2 ^ 32) :
    decodeLE ((packHeader fieldType length).take 4) = fieldType := by
  rw [packHeader, List.take_left' (encodeLE_length 4 fieldType)]
  exact decodeLE_encodeLE 4 fieldType h

theorem packHeader_size (fieldType length : Nat) (h : length < 2 ^ 32) :
    decodeLE ((packHeader fieldType length).drop 4) = length := by
  rw [packHeader, List.drop_left' (encodeLE_length 4 fieldType)]
  exact decodeLE_encodeLE 4 length h

theorem recvExactly_reads (items rest : Bytes) (fds : List Nat) (socket : Socket) (hflows : Flows socket)
    (hdata : dataOf socket = items ++ rest) :
    ∃ left, recvExactly items.length fds socket =
        .ok (items, fds ++ attachedBefore items.length socket, left) ∧
      dataOf left = rest ∧ Flows left ∧
      ∀ more, attachedBefore (items.length + more) socket =
        attachedBefore items.length socket ++ attachedBefore more left := by
  obtain ⟨left, hread, hleft⟩ := readExactly_reads items.length [] fds socket hflows items rest hdata rfl
  refine ⟨left, ?_, hleft⟩
  unfold recvExactly
  rw [hread]
  rfl

theorem recvFrame_reads (f : Frame) (hf : Packs f) (rest : Bytes) (fds : List Nat) (socket : Socket)
    (hflows : Flows socket) (hdata : dataOf socket = wire [f] ++ rest) :
    ∃ left, recvFrame fds socket = .ok (f.1, f.2, fds ++ attachedBefore (wire [f]).length socket, left) ∧
      dataOf left = rest ∧ Flows left ∧
      ∀ more, attachedBefore ((wire [f]).length + more) socket =
        attachedBefore (wire [f]).length socket ++ attachedBefore more left := by
  obtain ⟨fieldType, payload⟩ := f
  have hwire : wire [(fieldType, payload)] = packHeader fieldType payload.length ++ payload := by
    simp [wire]
  rw [hwire] at hdata ⊢
  rw [List.append_assoc] at hdata
  obtain ⟨middle, hhead, hmiddle, hflows', hfirst⟩ :=
    recvExactly_reads (packHeader fieldType payload.length) (payload ++ rest) fds socket hflows hdata
  obtain ⟨left, hpayload, hleft, hflows'', hsecond⟩ := recvExactly_reads payload rest
    (fds ++ attachedBefore (packHeader fieldType payload.length).length socket) middle hflows' hmiddle
  have hboth := hfirst payload.length
  refine ⟨left, ?_, hleft, hflows'', fun more => ?_⟩
  · rw [packHeader_length] at hhead
    unfold recvFrame
    rw [hhead, ok_bind]
    simp only [packHeader_type fieldType payload.length hf.1, packHeader_size fieldType payload.length hf.2]
    rw [packHeader_length] at hpayload
    rw [hpayload, ok_bind, List.length_append, hboth, packHeader_length, List.append_assoc]
    rfl
  · rw [List.length_append, hboth, Nat.add_assoc, hfirst, hsecond, List.append_assoc]

/-! ## The loop -/

theorem wire_append (frames more : List Frame) : wire (frames ++ more) = wire frames ++ wire more := by
  unfold wire
  exact List.flatMap_append

theorem wire_length (frames : List Frame) : frames.length ≤ (wire frames).length := by
  induction frames with
  | nil => exact Nat.zero_le _
  | cons f frames ih =>
    have hhead := packHeader_length f.1 f.2.length
    rw [show f :: frames = [f] ++ frames from rfl, wire_append, List.length_append, List.length_append]
    simp only [wire, List.flatMap_cons, List.flatMap_nil, List.append_nil, List.length_append] at ih ⊢
    simp only [List.length_singleton]
    omega

variable (method target : Text)

theorem decode_text (text : Text) (h : isUtf8 text = true) : decode text = .ok text := by
  unfold decode fromUtf8
  rw [if_pos h]
  rfl

theorem mintLoop_arg (fuel : Nat) (bound : List Text) (fds fds' : List Nat) (socket socket' : Socket)
    (a : Text) (hutf : isUtf8 a = true) (hframe : recvFrame fds socket = .ok (argType, a, fds', socket')) :
    mintLoop method target (fuel + 1) bound fds socket =
      mintLoop method target fuel (bound ++ [a]) fds' socket' := by
  rw [mintLoop, hframe, ok_bind]
  simp only [if_true]
  rw [decode_text a hutf]
  rfl

theorem mintLoop_error (fuel : Nat) (bound : List Text) (fds fds' : List Nat) (socket socket' : Socket)
    (text : Text) (hutf : isUtf8 text = true) (hframe : recvFrame fds socket = .ok (errorType, text, fds', socket')) :
    mintLoop method target (fuel + 1) bound fds socket = .error (.err (.runtimeError text)) := by
  rw [mintLoop, hframe, ok_bind]
  simp only [if_neg (show errorType ≠ argType by decide), if_true]
  rw [decode_text text hutf]
  rfl

theorem mintLoop_args (args : List Text) (hargs : ∀ a ∈ args, Packs (argFrame a) ∧ isUtf8 a = true)
    (fuel : Nat) (bound : List Text) (fds : List Nat) (socket : Socket) (hflows : Flows socket) (rest : Bytes)
    (hdata : dataOf socket = wire (args.map argFrame) ++ rest) :
    ∃ left, mintLoop method target (args.length + fuel) bound fds socket =
        mintLoop method target fuel (bound ++ args)
          (fds ++ attachedBefore (wire (args.map argFrame)).length socket) left ∧
      dataOf left = rest ∧ Flows left ∧
      ∀ more, attachedBefore ((wire (args.map argFrame)).length + more) socket =
        attachedBefore (wire (args.map argFrame)).length socket ++ attachedBefore more left := by
  induction args generalizing bound fds socket with
  | nil =>
    have hnone : attachedBefore (wire ([].map argFrame)).length socket = [] :=
      attachedBefore_zero socket
    refine ⟨socket, ?_, hdata, hflows, fun more => ?_⟩
    · rw [hnone, List.append_nil, List.append_nil, List.length_nil, Nat.zero_add]
    · rw [hnone, List.nil_append]
      exact congrArg (attachedBefore · socket) (Nat.zero_add more)
  | cons a args ih =>
    obtain ⟨hpacks, hutf⟩ := hargs a List.mem_cons_self
    have hsplit : wire ((a :: args).map argFrame) = wire [argFrame a] ++ wire (args.map argFrame) :=
      wire_append [argFrame a] (args.map argFrame)
    rw [hsplit] at hdata ⊢
    rw [List.append_assoc] at hdata
    obtain ⟨middle, hframe, hmiddle, hflows', hfirst⟩ :=
      recvFrame_reads (argFrame a) hpacks _ fds socket hflows hdata
    obtain ⟨left, hloop, hleft, hflows'', hsecond⟩ := ih (fun b hb => hargs b (List.mem_cons_of_mem _ hb))
      (bound ++ [a]) (fds ++ attachedBefore (wire [argFrame a]).length socket) middle hflows' hmiddle
    have hboth := hfirst (wire (args.map argFrame)).length
    refine ⟨left, ?_, hleft, hflows'', fun more => ?_⟩
    · have hturns : (a :: args).length + fuel = args.length + fuel + 1 := by
        rw [List.length_cons]
        omega
      rw [hturns, mintLoop_arg method target _ bound fds _ socket middle a hutf hframe, hloop,
        List.length_append, hboth, List.append_assoc, List.append_assoc]
      rfl
    · rw [List.length_append, hboth, Nat.add_assoc, hfirst, hsecond, List.append_assoc]

/-! ## What the daemon sends -/

/-- A message as a frame. The payload of an `Fd` message is not looked at. -/
def frameOf (note : Bytes) : Message → Frame
  | .arg value => argFrame value
  | .end_ => (endType, [])
  | .error text => (errorType, text)
  | .fds _ => (fdType, note)

def descriptors : Message → Nat
  | .fds count => count
  | _ => 0

/-- The socket delivers messages, in whatever chunks: their texts are text, and the descriptors have come
when the last of them is there. -/
structure Delivers (note : Bytes) (messages : List Message) (fds : List Nat) (socket : Socket) : Prop where
  flows : Flows socket
  packs : ∀ message ∈ messages, Packs (frameOf note message)
  texts : ∀ text, .arg text ∈ messages ∨ .error text ∈ messages → isUtf8 text = true
  wired : wire (messages.map (frameOf note)) <+: dataOf socket
  attached : attachedBefore (wire (messages.map (frameOf note))).length socket = fds
  carried : fds.length = (messages.map descriptors).sum

variable (args : List Text) {note : Bytes} {fds : List Nat} {socket : Socket}

theorem mint_last (last : Message) (h : Delivers note (args.map Message.arg ++ [last]) fds socket) :
    ∃ fuel seen left rest, mint method target socket = mintLoop method target (fuel + 1) args seen left ∧
      Flows left ∧ dataOf left = wire [frameOf note last] ++ rest ∧
      seen ++ attachedBefore (wire [frameOf note last]).length left = fds := by
  obtain ⟨hflows, hpacks, htexts, ⟨rest, hwired⟩, hattached, -⟩ := h
  have hframes : (args.map Message.arg ++ [last]).map (frameOf note) =
      args.map argFrame ++ [frameOf note last] := by
    rw [List.map_append, List.map_map]
    rfl
  rw [hframes, wire_append] at hwired hattached
  have hargs : ∀ a ∈ args, Packs (argFrame a) ∧ isUtf8 a = true := by
    intro a ha
    have hmem : Message.arg a ∈ args.map Message.arg ++ [last] :=
      List.mem_append_left _ (List.mem_map_of_mem ha)
    exact ⟨hpacks _ hmem, htexts a (.inl hmem)⟩
  have hroom : args.length ≤ (dataOf socket).length := by
    have hargs := wire_length (args.map argFrame)
    rw [List.length_map] at hargs
    rw [← hwired, List.length_append, List.length_append]
    omega
  obtain ⟨left, hloop, hleft, hflows', hmore⟩ := mintLoop_args method target args hargs
    ((dataOf socket).length - args.length + 1) [] [] socket hflows (wire [frameOf note last] ++ rest)
    (by rw [← hwired, List.append_assoc])
  refine ⟨(dataOf socket).length - args.length,
    attachedBefore (wire (args.map argFrame)).length socket, left, rest, ?_, hflows', hleft, ?_⟩
  · have hfuel : args.length + ((dataOf socket).length - args.length + 1) = (dataOf socket).length + 1 := by
      omega
    rw [hfuel] at hloop
    exact hloop
  · rw [← hattached, List.length_append, hmore]

theorem mint_granted (count fd : Nat)
    (h : Delivers note (args.map Message.arg ++ [.fds count]) (fd :: fds) socket) :
    mint method target socket = .ok (fd, (args ++ [method, target]).take 2) := by
  have hpacks := h.packs (.fds count) (by simp)
  obtain ⟨fuel, seen, left, rest, hloop, hflows, hdata, hattached⟩ :=
    mint_last method target args (.fds count) h
  obtain ⟨left', hframe, -, -, -⟩ := recvFrame_reads _ hpacks rest seen left hflows hdata
  rw [hattached] at hframe
  rw [hloop, mintLoop, hframe]
  rfl

theorem mint_refused (text : Text) (h : Delivers note (args.map Message.arg ++ [.error text]) fds socket) :
    mint method target socket = .error (.err (.runtimeError text)) := by
  have hpacks := h.packs (.error text) (by simp)
  have hutf := h.texts text (.inr (by simp))
  obtain ⟨fuel, seen, left, rest, hloop, hflows, hdata, hattached⟩ :=
    mint_last method target args (.error text) h
  obtain ⟨left', hframe, -, -, -⟩ := recvFrame_reads _ hpacks rest seen left hflows hdata
  rw [hloop]
  exact mintLoop_error method target fuel args seen _ left left' text hutf hframe

/-! ## What the script sends -/

theorem mintRequest_wire (note : Bytes) (hmethod : method.length < 2 ^ 32) (htarget : target.length < 2 ^ 32) :
    mintRequest method target = .ok (wire ([.arg method, .arg target, .end_].map (frameOf note))) := by
  unfold mintRequest frame
  rw [if_pos hmethod, if_pos htarget]
  simp [frameOf, argFrame, wire]

theorem request_eq : request method target = requestBytes method target [] [] := by
  simp [request, requestBytes, requestHead]
  rfl

/-! ## What the script prints -/

theorem readResponse_flatten (chunks : List Bytes) (h : ∀ chunk ∈ chunks, chunk ≠ []) :
    readResponse chunks = chunks.flatten := by
  induction chunks with
  | nil => rfl
  | cons chunk chunks ih =>
    have hne := h chunk List.mem_cons_self
    rw [readResponse, if_neg (by simpa using hne), ih fun c hc => h c (List.mem_cons_of_mem _ hc)]
    rfl

theorem partition_answer (answer : ResponseHead × Bytes) (hgood : Good answer) :
    ∃ fields, partition (answerBytes answer) = (statusLine answer.1 ++ crlf ++ fields, answer.2) ∧
      Ascii (statusLine answer.1 ++ crlf ++ fields) := by
  have hend := findHeadEnd_encode answer.1 answer.2.length answer.2 hgood.encodable
  obtain ⟨i, hfind, hi⟩ := Option.map_eq_some_iff.mp hend
  have hsplit := findSeq_split _ _ i (by decide) hfind
  have hbody : (answerBytes answer).drop (i + 4) = answer.2 := by
    rw [hi, answerBytes, List.drop_left]
  rw [← answerBytes, show (crlf ++ crlf).length = 4 from rfl, hbody] at hsplit
  obtain ⟨fields, hfields⟩ := encode_blank answer.1 answer.2.length
  have hhead : statusLine answer.1 ++ crlf ++ fields = (answerBytes answer).take i :=
    List.append_cancel_right (hfields.symm.trans (List.append_cancel_right hsplit))
  refine ⟨fields, ?_, fun b hb => ?_⟩
  · unfold partition
    rw [answerBytes, hfind, ← answerBytes]
    simp only [hbody, hhead]
  · apply encode_ascii answer.1 answer.2.length hgood.encodable
    rw [hfields]
    exact List.mem_append_left _ hb

theorem printed_answer (answer : ResponseHead × Bytes) (hgood : Good answer) (response : Response)
    (hresponse : response = responseOf answer.1 answer.2) :
    printed (answerBytes answer) =
      .ok (ascii "HTTP/1.1 " ++ decimal response.status.toNat ++ ascii " " ++ response.reason ++
        ascii "\n" ++ decodeReplace response.body) := by
  subst hresponse
  obtain ⟨fields, hpartition, hascii⟩ := partition_answer answer hgood
  have hdecoded := decodeReplace_of_utf8 _ (isUtf8_of_ascii _ hascii)
  have hline : firstLine (statusLine answer.1 ++ crlf ++ fields) = some (statusLine answer.1) := by
    rw [List.append_assoc] at hascii ⊢
    exact firstLine_of_ascii _ _ hascii (statusLine_field answer.1)
  unfold printed
  simp only [hpartition, hdecoded, hline]
  simp [statusLine, responseOf, ascii, ch, pure, Except.pure]

example : printed [] = .error .indexError := rfl

/-! ## The whole script -/

section Main

variable (script endpoint : Text) (rest : List Text) (control : Socket) (chunks : List Bytes)
  (hmethod : method = rest.getD 1 (ascii "GET")) (htarget : target = rest.headD (ascii "/"))
  (hsmall : method.length < 2 ^ 32 ∧ target.length < 2 ^ 32)
include hmethod htarget hsmall

theorem sends_raised (e : Halt Raised) (h : mint method target control = .error e) :
    sends (script :: endpoint :: rest) control = .error e := by
  have hasked := mintRequest_wire method target [] hsmall.1 hsmall.2
  unfold sends
  simp only [← hmethod, ← htarget, hasked, h]
  rfl

theorem sends_minted (fd : Nat) (boundMethod boundTarget : Text)
    (h : mint method target control = .ok (fd, [boundMethod, boundTarget])) :
    sends (script :: endpoint :: rest) control = .ok {
      asked := wire ([.arg method, .arg target, .end_].map (frameOf []))
      request := requestBytes boundMethod boundTarget [] [] } := by
  have hasked := mintRequest_wire method target [] hsmall.1 hsmall.2
  unfold sends
  simp only [← hmethod, ← htarget, hasked, h, ← request_eq]
  rfl

/-- **The script gets what the library gets**: of a daemon that answers what the script sent, in whatever
chunks the two sockets deliver, the script prints the answer of the call in one step, and raises its
refusal. What it sends is the mint of the library, in frames, and the request of the library. -/
theorem script_invokes (config : Config) (hhonest : Honest config ⟨method, target, [], []⟩) (note : Bytes)
    (fds : List Nat) (reads : List Bytes)
    (hcontrol : Delivers note (finalState (serveConnection config (minting method target reads))).transport.sent
      fds control)
    (hreads : ∀ sent, sends (script :: endpoint :: rest) control = .ok sent →
      Segmented maxRead sent.request reads)
    (hchunks : ∀ chunk ∈ chunks, chunk ≠ [])
    (hresponse : chunks.flatten =
      (finalState (serveConnection config (minting method target reads))).stream.written) :
    match invoke config ⟨method, target, [], []⟩ with
    | .ok response => ∃ m, Granted config ⟨method, target, [], []⟩ m ∧
        main (script :: endpoint :: rest) control chunks = .ok
          ({ asked := wire ([.arg method, .arg target, .end_].map (frameOf []))
             request := requestBytes m.boundMethod m.boundTarget [] [] },
            ascii "HTTP/1.1 " ++ decimal response.status.toNat ++ ascii " " ++ response.reason ++
              ascii "\n" ++ decodeReplace response.body)
    | .error e => ∃ text, e = .refused text ∧
        main (script :: endpoint :: rest) control chunks = .error (.err (.runtimeError text)) := by
  unfold invoke
  cases hresolve : config.grant.resolve config.parseUrl method target with
  | error why =>
    have hsent := (refused_served config method target why reads hresolve).1
    rw [hsent] at hcontrol
    have hraised := mint_refused method target [] why.text hcontrol
    refine ⟨why.text, rfl, ?_⟩
    unfold main
    rw [sends_raised method target script endpoint rest control hmethod htarget hsmall _ hraised]
    rfl
  | ok bound =>
    obtain ⟨boundMethod, url⟩ := bound
    let m : Mint := ⟨config, boundMethod, boundTargetOf config.grant target, url⟩
    have hgranted : Granted config ⟨method, target, [], []⟩ m := ⟨boundMethod, url, hresolve, rfl⟩
    have hsent := granted_sent config method target boundMethod url hresolve reads
    rw [hsent] at hcontrol
    obtain ⟨fd, rfl⟩ := List.length_eq_one_iff.mp hcontrol.carried
    have hminted := mint_granted method target [boundMethod, m.boundTarget] 1 fd hcontrol
    have hsends := sends_minted method target script endpoint rest control hmethod htarget hsmall fd
      boundMethod m.boundTarget hminted
    have hwritten := granted_written config method target boundMethod url [] [] hresolve hhonest.headers
      hhonest.body (hhonest.head m hgranted) reads (hreads _ hsends)
    have hprinted := printed_answer (respond m [] []) (respond_good m [] []) _ rfl
    rw [← hwritten, ← hresponse, ← readResponse_flatten chunks hchunks] at hprinted
    refine ⟨m, hgranted, ?_⟩
    unfold main
    rw [hsends, ok_bind, hprinted]
    rfl

end Main

def plainReply : List Message := [.arg (ascii "GET"), .arg (ascii "/x"), .fds 1]

/-- The reply in two chunks, cut in the first header. -/
def plainControl : Socket :=
  [⟨(wire (plainReply.map (frameOf []))).take 5, []⟩, ⟨(wire (plainReply.map (frameOf []))).drop 5, [7]⟩]

theorem plain_delivers : Delivers [] plainReply [7] plainControl where
  flows := by
    unfold Flows
    decide
  packs := by decide
  texts := by
    intro text htext
    simp only [plainReply, List.mem_cons, Message.arg.injEq, reduceCtorEq, List.not_mem_nil, or_false] at htext
    rcases htext with rfl | rfl <;> decide
  wired := by decide
  attached := by decide
  carried := rfl

/-- The daemon's side of the call, which finds the request in one read. -/
def plainServed : World :=
  finalState (serveConnection plainMint.config
    (minting (ascii "GET") (ascii "/x") [requestBytes (ascii "GET") (ascii "/x") [] []]))

theorem script_invokes_plain :
    ∃ sent, main [ascii "mint.py", ascii "/run/cap/x", ascii "/x"] plainControl [plainServed.stream.written] =
      .ok (sent, ascii "HTTP/1.1 200 OK\nhi") := by
  have hs : Segmented maxRead (requestBytes (ascii "GET") (ascii "/x") [] [])
      [requestBytes (ascii "GET") (ascii "/x") [] []] := ⟨by simp, by decide, by decide⟩
  have hsent : plainServed.transport.sent = plainReply :=
    granted_sent plainMint.config (ascii "GET") (ascii "/x") plainMint.boundMethod plainMint.url
      plain_resolved [requestBytes (ascii "GET") (ascii "/x") [] []]
  have hwritten : plainServed.stream.written = answerBytes (respond plainMint [] []) :=
    granted_written plainMint.config (ascii "GET") (ascii "/x") plainMint.boundMethod plainMint.url [] []
      plain_resolved plain_honest.headers plain_honest.body
      (plain_honest.head _ ⟨plainMint.boundMethod, plainMint.url, plain_resolved, rfl⟩) _ hs
  have hsends := sends_minted (ascii "GET") (ascii "/x") (ascii "mint.py") (ascii "/run/cap/x") [ascii "/x"]
    plainControl rfl rfl (by decide) 7 (ascii "GET") (ascii "/x")
    (mint_granted _ _ [ascii "GET", ascii "/x"] 1 7 plain_delivers)
  have hscript := script_invokes (ascii "GET") (ascii "/x") (ascii "mint.py") (ascii "/run/cap/x") [ascii "/x"]
    plainControl [plainServed.stream.written] rfl rfl (by decide) plainMint.config plain_honest [] [7]
    [requestBytes (ascii "GET") (ascii "/x") [] []]
    (by rw [← plainServed, hsent]; exact plain_delivers)
    (fun sent h => by
      rw [hsends, Except.ok.injEq] at h
      rw [← h]
      exact hs)
    (fun chunk hchunk => by
      rw [List.mem_singleton.mp hchunk, hwritten]
      simp [answerBytes, ResponseHead.encode, ascii])
    List.flatten_singleton
  have hanswer : responseOf (respond plainMint [] []).1 (respond plainMint [] []).2 =
      ⟨200, ascii "OK", (responseOf (respond plainMint [] []).1 (respond plainMint [] []).2).headers,
        ascii "hi", false⟩ := by
    decide +kernel
  have hinvoked : invoke plainMint.config plainAsk =
      .ok (responseOf (respond plainMint [] []).1 (respond plainMint [] []).2) := by
    unfold invoke
    rw [plain_resolved]
    rfl
  rw [← plainAsk, hinvoked, hanswer] at hscript
  obtain ⟨m, -, hmain⟩ := hscript
  exact ⟨_, hmain⟩

end Capcurl.Script
