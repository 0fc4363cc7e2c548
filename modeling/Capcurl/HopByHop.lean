import Capcurl.Relay

/-! # Headers of one connection, and headers of the message -/

namespace Capcurl.HopByHop

open Lib Http Policy Capcurl.Core Spec Session Relay

/-! ## What must not cross the relay -/

/-- An element of a `Connection` value is this name, in any letter case. -/
def nominates (value : Bytes) (name : Text) : Bool :=
  (value.splitOn (ch ',')).any fun element => eqIgnoreCase (trimOws element) name

def isConnection (field : HeaderName × Bytes) : Bool := field.1.text == ascii "connection"

/-- Some `Connection` field nominates this name. -/
def nominated (headers : List (HeaderName × Bytes)) (name : Text) : Bool :=
  headers.any fun field => isConnection field && nominates field.2 name

def connectionSpecific (headers : List (HeaderName × Bytes)) (name : Text) : Bool :=
  hopByHop.contains name || nominated headers name

/-- The headers of the message itself, of those whose value is text. -/
def endToEnd (headers : List (HeaderName × Bytes)) : List Header :=
  headers.filterMap fun field =>
    if connectionSpecific headers field.1.text then none
    else (toStr field.2).map fun value => (field.1.text, value)

/-- The first `Connection` field is text, and nominates this name. -/
def FirstNominates (headers : List (HeaderName × Bytes)) (name : Text) : Prop :=
  ∃ first, headers.find? isConnection = some first ∧ first.2.all isFieldByte = true ∧
    nominates first.2 name = true

/-- Whatever a `Connection` field nominates, the first one does. -/
def FirstSpeaks (headers : List (HeaderName × Bytes)) : Prop :=
  ∀ field ∈ headers, field.2.all isFieldByte = true → field.1.text ∉ hopByHop →
    nominated headers field.1.text = true → FirstNominates headers field.1.text

/-! ## What does cross it -/

theorem trim_of_field (t : Bytes) (h : t.all isFieldByte = true) : trim t = trimOws t := by
  rw [trim_of_ascii t (ascii_of_field t h)]
  exact trimBy_congr _ _ t fun b hb => asciiSpace_eq_ows b (List.all_eq_true.mp h b hb)

theorem nominates_of_field (value : Bytes) (name : Text) (h : value.all isFieldByte = true) :
    ((value.splitOn (ch ',')).any fun element => eqIgnoreCase (trim element) name) = nominates value name := by
  unfold nominates
  rw [Bool.eq_iff_iff, List.any_eq_true, List.any_eq_true]
  have hsame : ∀ element ∈ value.splitOn (ch ','), trim element = trimOws element := by
    intro element helement
    apply trim_of_field
    rw [List.all_eq_true]
    exact fun b hb => List.all_eq_true.mp h b (subset_of_mem_splitOn _ _ _ helement hb)
  constructor
  · rintro ⟨element, helement, heq⟩
    rw [hsame element helement] at heq
    exact ⟨element, helement, heq⟩
  · rintro ⟨element, helement, heq⟩
    rw [← hsame element helement] at heq
    exact ⟨element, helement, heq⟩

theorem isHopByHop_iff (headers : List (HeaderName × Bytes)) (name : HeaderName) :
    isHopByHop name.text (connectionOf headers) = true ↔
      name.text ∈ hopByHop ∨ FirstNominates headers name.text := by
  have hfirst : connectionOf headers = (headers.find? isConnection).bind fun first => toStr first.2 := by
    unfold connectionOf
    rw [Option.bind_map]
    rfl
  unfold isHopByHop FirstNominates
  rw [name.lower, hfirst]
  by_cases hfixed : name.text ∈ hopByHop
  · simp [hfixed]
  · have hcontains : hopByHop.contains name.text = false := by simpa using hfixed
    simp only [hcontains, Bool.false_eq_true, if_false, hfixed, false_or]
    cases hfind : headers.find? isConnection with
    | none => simp
    | some first =>
      by_cases htext : first.2.all isFieldByte = true
      · have hvalue : toStr first.2 = some first.2 := by rw [toStr, if_pos htext]
        simp only [Option.bind_some, hvalue, nominates_of_field _ _ htext, Option.some.injEq,
          exists_eq_left', htext, true_and]
      · have hvalue : toStr first.2 = none := by rw [toStr, if_neg htext]
        simp only [Option.bind_some, hvalue, Bool.false_eq_true, Option.some.injEq, exists_eq_left', htext,
          false_and]

theorem firstNominates_nominated (headers : List (HeaderName × Bytes)) (name : Text)
    (h : FirstNominates headers name) : nominated headers name = true := by
  obtain ⟨first, hfind, -, hnominates⟩ := h
  unfold nominated
  rw [List.any_eq_true]
  refine ⟨first, List.mem_of_find?_eq_some hfind, ?_⟩
  rw [List.find?_some hfind, hnominates]
  rfl

section FilterMap

variable {α β : Type} (f g : α → Option β)

theorem filterMap_length_le (l : List α) (h : ∀ a ∈ l, g a = none ∨ g a = f a) :
    (l.filterMap g).length ≤ (l.filterMap f).length := by
  induction l with
  | nil => exact Nat.le_refl 0
  | cons a l ih =>
    have htail := ih fun b hb => h b (List.mem_cons_of_mem a hb)
    rw [List.filterMap_cons, List.filterMap_cons]
    rcases h a List.mem_cons_self with hnone | heq
    · rw [hnone]
      cases f a with
      | none => exact htail
      | some b => exact Nat.le_succ_of_le htail
    · rw [heq]
      cases f a with
      | none => exact htail
      | some b => exact Nat.succ_le_succ htail

theorem filterMap_eq_iff (l : List α) (h : ∀ a ∈ l, g a = none ∨ g a = f a) :
    l.filterMap f = l.filterMap g ↔ ∀ a ∈ l, f a = g a := by
  refine ⟨fun heq => ?_, List.filterMap_congr⟩
  induction l with
  | nil => simp
  | cons a l ih =>
    have htail := fun b hb => h b (List.mem_cons_of_mem a hb)
    have hle := filterMap_length_le f g l htail
    have hhead : f a = g a := by
      rcases h a List.mem_cons_self with hnone | hsame
      · cases hf : f a with
        | none => exact hnone.symm
        | some b =>
          have hlen := congrArg List.length heq
          rw [List.filterMap_cons_some hf, List.filterMap_cons_none hnone, List.length_cons] at hlen
          omega
      · exact hsame.symm
    have hrest : l.filterMap f = l.filterMap g := by
      rw [List.filterMap_cons, List.filterMap_cons, ← hhead] at heq
      cases hf : f a with
      | none => simpa only [hf] using heq
      | some b =>
        simp only [hf] at heq
        exact (List.cons.inj heq).2
    intro b hb
    rcases List.mem_cons.mp hb with rfl | hb
    · exact hhead
    · exact ih htail hrest b hb

end FilterMap

theorem connectionSpecific_of_hop (headers : List (HeaderName × Bytes)) (name : HeaderName)
    (h : isHopByHop name.text (connectionOf headers) = true) :
    connectionSpecific headers name.text = true := by
  unfold connectionSpecific
  rw [Bool.or_eq_true, List.contains_iff_mem]
  exact ((isHopByHop_iff headers name).mp h).imp_right (firstNominates_nominated headers name.text)

theorem relayHeaders_eq_iff (headers : List (HeaderName × Bytes)) :
    relayHeaders headers = endToEnd headers ↔ FirstSpeaks headers := by
  unfold relayHeaders endToEnd
  rw [filterMap_eq_iff]
  · refine forall₂_congr fun field _ => ?_
    have hhop := isHopByHop_iff headers field.1
    have hspecific : connectionSpecific headers field.1.text = true ↔
        field.1.text ∈ hopByHop ∨ nominated headers field.1.text = true := by
      unfold connectionSpecific
      rw [Bool.or_eq_true, List.contains_iff_mem]
    by_cases htext : field.2.all isFieldByte = true
    · have hvalue : toStr field.2 = some field.2 := by rw [toStr, if_pos htext]
      rw [hvalue, Option.map_some]
      by_cases hrelayed : isHopByHop field.1.text (connectionOf headers) = true
      · rw [if_pos hrelayed, if_pos (connectionSpecific_of_hop headers field.1 hrelayed)]
        rw [hhop] at hrelayed
        refine iff_of_true rfl fun _ hfixed _ => hrelayed.resolve_left hfixed
      · rw [if_neg hrelayed]
        rw [hhop, not_or] at hrelayed
        by_cases hnominated : nominated headers field.1.text = true
        · rw [if_pos (hspecific.mpr (.inr hnominated))]
          exact iff_of_false (by simp) fun h => hrelayed.2 (h htext hrelayed.1 hnominated)
        · rw [if_neg fun h => (hspecific.mp h).elim hrelayed.1 hnominated]
          exact iff_of_true rfl fun _ _ h => absurd h hnominated
    · have hvalue : toStr field.2 = none := by rw [toStr, if_neg htext]
      simp [hvalue, htext]
  · intro field _
    by_cases hrelayed : isHopByHop field.1.text (connectionOf headers) = true
    · rw [if_pos (connectionSpecific_of_hop headers field.1 hrelayed)]
      exact .inl rfl
    · rw [if_neg hrelayed]
      split
      · exact .inl rfl
      · exact .inr rfl

/-- **The relay** passes on the headers of the message, and no header of the connection, in the sessions
in which the origin's first `Connection` field speaks for all of them, and in no others. -/
theorem relays_endToEnd_iff (config : Config) (boundMethod boundTarget : Text) (url : Url) (w w' : World)
    (hrun : serveRequest config boundMethod boundTarget url w = .ok () w') :
    ∃ call request answer body, w'.fetches = w.fetches ++ [call] ∧
      requestOf config.net call = .ok request ∧ config.net.send request = .ok answer ∧
      let response := responseFrom config.net answer body
      w'.stream.written = w.stream.written ++ relayBytes response ∧
        ((relayHead response).headers = endToEnd answer.headers ↔ FirstSpeaks answer.headers) := by
  have hserved := serveRequest_cases config boundMethod boundTarget url w
  rw [hrun] at hserved
  cases hserved with
  | relayed call unread response room hcall hfetch =>
    obtain ⟨request, answer, pieces, hrequest, hsend, -, rfl, -⟩ := fetch_ok config call response hfetch
    exact ⟨call, request, answer, pieces.flatten, rfl, hrequest, hsend, rfl, relayHeaders_eq_iff answer.headers⟩

/-! ## Answers with one `Connection` field, and with two -/

def connectionName : HeaderName := ⟨ascii "connection", by decide, by decide, by decide⟩

def answerHeaders (headers : List (HeaderName × Bytes)) : OriginResponse :=
  { answerWith plainName (ascii "v") with headers }

theorem answerHeaders_relayed (headers : List (HeaderName × Bytes)) :
    serveRequest (configFor (answerHeaders headers)) (ascii "GET") (ascii "/x") bareCall.url bareWorld =
      .ok () (wrote (called bareWorld [] bareCall)
        (relayBytes (responseFrom (answering (answerHeaders headers)) (answerHeaders headers)
          (ascii "hi"))) none) :=
  serveRequest_relays _ _ _ _ _ bareCall [] _ (bare_admitted _) rfl rfl

theorem relays_endToEnd_iff_once :
    ∃ w', serveRequest (configFor (answerHeaders
        [(connectionName, ascii "close, X-A"), (plainName, ascii "v")])) (ascii "GET") (ascii "/x")
        bareCall.url bareWorld = .ok () w' ∧
      ∃ response, w'.stream.written = relayBytes response ∧ (relayHead response).headers = [] := by
  have hrun := answerHeaders_relayed [(connectionName, ascii "close, X-A"), (plainName, ascii "v")]
  obtain ⟨call, request, answer, body, -, -, hsend, hwritten, hiff⟩ := relays_endToEnd_iff _ _ _ _ _ _ hrun
  have hanswer : answerHeaders [(connectionName, ascii "close, X-A"), (plainName, ascii "v")] = answer :=
    Except.ok.inj hsend
  subst hanswer
  refine ⟨_, hrun, _, hwritten, ?_⟩
  rw [hiff.mpr]
  · decide
  · intro field hfield htext hfixed _
    refine ⟨(connectionName, ascii "close, X-A"), rfl, by decide, ?_⟩
    rcases List.mem_pair.mp hfield with rfl | rfl
    · exact absurd (by decide) hfixed
    · decide

/-- A second `Connection` field nominates a header that is relayed all the same. -/
theorem second_connection_ignored :
    ∃ w' response, serveRequest (configFor (answerHeaders [(connectionName, ascii "close"),
        (connectionName, ascii "x-a"), (plainName, ascii "v")])) (ascii "GET") (ascii "/x")
        bareCall.url bareWorld = .ok () w' ∧ w'.stream.written = relayBytes response ∧
      response.headers = [(connectionName, ascii "close"), (connectionName, ascii "x-a"),
        (plainName, ascii "v")] ∧
      (ascii "x-a", ascii "v") ∈ (relayHead response).headers ∧
      nominated response.headers (ascii "x-a") = true :=
  ⟨_, _, answerHeaders_relayed _, rfl, rfl, by decide, by decide⟩

end Capcurl.HopByHop
