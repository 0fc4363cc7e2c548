import Capcurl.Calls
import Capcurl.Calls.Connection
import Capcurl.Cli.Client

/-! # What a command prints -/

namespace Capcurl.Cli.Client

open Lib Capcurl.Core Http Policy Session Marker Agreement ResponseCodec Delivery Calls

/-! ## What a command is for -/

/-- The request on a command line. -/
def Options.ask (options : Options) : Ask := ⟨options.method, options.target, options.headers, options.body⟩

structure Ending where
  exit : UInt8
  stdout : Bytes
  stderr : List Text
  files : List (Text × Bytes)
  deriving DecidableEq

def refusedEnding (why : Denied) : Ending := ⟨1, [], [ascii "capcurl: " ++ why.text], []⟩

/-- The user is told what is bound, where that is not what was asked for. -/
def notice (options : Options) (method target : Text) : List Text :=
  if method = options.method ∧ target = options.target then []
  else [ascii "capcurl: endpoint is pinned; fetching " ++ method ++ ascii " " ++ target]

def answeredEnding (options : Options) (method target : Text) (response : Response) : Ending where
  exit := if response.refused ∨ options.failOnError ∧ response.status ≥ 400 then exitHttpError else 0
  stdout := (if options.includeHeaders then printedHead response else []) ++
    if options.output.isNone then response.body else []
  stderr := notice options method target ++
    if response.refused then
      [ascii "capcurl: refused by the capability (" ++ decimal response.status.toNat ++ ascii ")"]
    else []
  files := options.output.toList.map fun path => (path, response.body)

/-- How a command ends, by the grant of its endpoint and the answer of the origin. -/
def ending (config : Config) (options : Options) : Ending :=
  match config.grant.resolve config.parseUrl options.method options.target with
  | .error why => refusedEnding why
  | .ok (boundMethod, url) =>
    let boundTarget := boundTargetOf config.grant options.target
    let answer := respond ⟨config, boundMethod, boundTarget, url⟩ options.headers options.body
    answeredEnding options boundMethod boundTarget (responseOf answer.1 answer.2)

/-! ## What the program prints -/

/-- Nothing around the program fails. -/
structure Works (shell : Shell) : Prop where
  files : ∀ path bytes, shell.writeFileError path bytes = none
  stdout : ∀ bytes, shell.stdoutError bytes = none

section Print

variable (shell : Shell) (hworks : Works shell) (options : Options) (response : Response) (p : Process)

theorem tellBinding_run (capability : MintedCapability) :
    tellBinding options capability p =
      .ok () { p with stderr := p.stderr ++ notice options capability.method capability.target } := by
  unfold tellBinding notice
  by_cases hsame : capability.method = options.method ∧ capability.target = options.target
  · rw [if_neg (by rw [not_or, not_not, not_not]; exact hsame), if_pos hsame, List.append_nil]
    rfl
  · rw [if_pos (by rw [← not_and_or]; exact hsame), if_neg hsame]
    rfl

theorem exitCode_run :
    exitCode options response p =
      .ok (if response.refused ∨ options.failOnError ∧ response.status ≥ 400 then exitHttpError else 0)
        { p with
          stderr := p.stderr ++
            if response.refused then
              [ascii "capcurl: refused by the capability (" ++ decimal response.status.toNat ++ ascii ")"]
            else [] } := by
  unfold exitCode
  by_cases hrefused : response.refused = true
  · rw [if_pos hrefused, if_pos (.inl hrefused), if_pos hrefused]
    rfl
  · rw [if_neg hrefused, if_neg hrefused, List.append_nil]
    by_cases hfail : options.failOnError = true ∧ response.status ≥ 400
    · rw [if_pos hfail, if_pos (.inr hfail)]
      rfl
    · rw [if_neg hfail, if_neg (by rw [not_or]; exact ⟨hrefused, hfail⟩)]
      rfl

include hworks

theorem printHead_run :
    printHead shell options response p =
      .ok () { p with
        stdout := p.stdout ++ if options.includeHeaders then printedHead response else [] } := by
  unfold printHead print
  rw [hworks.stdout]
  cases options.includeHeaders with
  | true => rfl
  | false => simp only [Bool.false_eq_true, if_false, List.append_nil]; rfl

theorem writeBody_run (output : Option Text) (body : Bytes) :
    writeBody shell output body p =
      .ok () { p with
        stdout := p.stdout ++ if output.isNone then body else []
        files := p.files ++ output.toList.map fun path => (path, body) } := by
  unfold writeBody
  cases output with
  | none =>
    simp only [hworks.stdout, Option.isNone_none, if_true, Option.toList_none, List.map_nil, List.append_nil]
    rfl
  | some path =>
    simp only [hworks.files, Option.isNone_some, Bool.false_eq_true, if_false, List.append_nil,
      Option.toList_some, List.map_cons, List.map_nil]
    rfl

end Print

/-- The process, after it has printed this. -/
def Process.print (p : Process) (e : Ending) : Process :=
  { p with stdout := p.stdout ++ e.stdout, stderr := p.stderr ++ e.stderr, files := p.files ++ e.files }

section Call

variable (shell : Shell) (hworks : Works shell) (options : Options) (p : Process)

theorem call_refused (e : CoreError) (t : Transport)
    (hmint : mint options.method options.target p.transport = .error (.err e) t) :
    call shell options p = .error (.err (.failed e.text)) { p with transport := t } := by
  have hfailed : onTransport (mint options.method options.target) p =
      .error (.err (.failed e.text)) { p with transport := t } := by
    unfold onTransport
    rw [hmint]
    rfl
  exact run_bind_error _ _ _ _ _ hfailed

variable (capability : MintedCapability) (t : Transport)
  (hmint : mint options.method options.target p.transport = .ok capability t)
include hworks hmint

theorem call_answered (response : Response) (s : Stream)
    (hresponse : requestOverFd capability.method capability.target options.headers options.body p.stream =
      .ok response s) :
    call shell options p =
      .ok (answeredEnding options capability.method capability.target response).exit
        (Process.print { p with transport := t, stream := s }
          (answeredEnding options capability.method capability.target response)) := by
  let told : Process := { p with
    transport := t, stderr := p.stderr ++ notice options capability.method capability.target }
  have hminted : onTransport (mint options.method options.target) p = .ok capability { p with transport := t } := by
    unfold onTransport
    rw [hmint]
  have hread : onStream (requestOverFd capability.method capability.target options.headers options.body) told =
      .ok response { told with stream := s } := by
    unfold onStream
    rw [hresponse]
  unfold call
  rw [run_bind_ok _ _ _ _ _ hminted, run_bind_ok _ _ _ _ _ (tellBinding_run options _ capability),
    run_bind_ok _ _ _ _ _ hread, run_bind_ok _ _ _ _ _ (printHead_run shell hworks options response _),
    run_bind_ok _ _ _ _ _ (writeBody_run shell hworks _ options.output response.body), exitCode_run]
  simp only [answeredEnding, Process.print, told, List.append_assoc]

theorem call_written (hopen : p.stream.room = none) :
    (finalState (call shell options p)).stream.written =
      p.stream.written ++ requestBytes capability.method capability.target options.headers options.body := by
  have hwritten := request_written capability.method capability.target options.headers options.body p.stream hopen
  cases hrequest : requestOverFd capability.method capability.target options.headers options.body p.stream with
  | ok response s =>
    rw [call_answered shell hworks options p capability t hmint response s hrequest, ← hwritten, hrequest]
    rfl
  | error e s =>
    have hminted : onTransport (mint options.method options.target) p =
        .ok capability { p with transport := t } := by
      unfold onTransport
      rw [hmint]
    let told : Process := { p with
      transport := t, stderr := p.stderr ++ notice options capability.method capability.target }
    have hfailed : onStream (requestOverFd capability.method capability.target options.headers options.body) told =
        .error (displayed e) { told with stream := s } := by
      unfold onStream
      rw [hrequest]
    unfold call
    rw [run_bind_ok _ _ _ _ _ hminted, run_bind_ok _ _ _ _ _ (tellBinding_run options _ capability),
      run_bind_error _ _ _ _ _ hfailed, ← hwritten, hrequest]
    rfl

end Call

/-! ## Both programs -/

/-- A channel on which these messages arrive. -/
def delivered (messages : List Message) : Transport := ⟨messages.map fun m => .ok m.received, [], []⟩

/-- `capcurl` and a connection of the daemon, each of which has what the other sends and writes. The
daemon finds the request in `reads`. -/
structure Meets (config : Config) (shell : Shell) (options : Options) (reads : List Bytes) (p : Process) :
    Prop where
  inbox : p.transport = delivered (finalState (serveConnection config
    (minting options.method options.target reads))).transport.sent
  opened : p.stream.room = none
  unwritten : p.stream.written = []
  up : Segmented maxRead (finalState (call shell options p)).stream.written reads
  down : Segmented maxRead (finalState (serveConnection config
    (minting options.method options.target reads))).stream.written p.stream.reads

section Meets

variable (config : Config) (shell : Shell) (options : Options)

theorem mint_refused (method target : Text) (why : Denied) :
    mint method target (delivered [.error why.text]) =
      .error (.err (.refused why.text)) ⟨[], [], [.arg method, .arg target, .end_]⟩ := rfl

theorem mint_granted (method target boundMethod boundTarget : Text) :
    mint method target (delivered [.arg boundMethod, .arg boundTarget, .fds 1]) =
      .ok ⟨0, boundMethod, boundTarget⟩ ⟨[], [], [.arg method, .arg target, .end_]⟩ := rfl

theorem refused_ends (why : Denied)
    (hresolve : config.grant.resolve config.parseUrl options.method options.target = .error why)
    (reads : List Bytes) (p : Process) (hmeets : Meets config shell options reads p) :
    ∃ t, call shell options p = .error (.err (.failed why.text)) { p with transport := t } := by
  have hinbox := hmeets.inbox
  rw [(refused_served config _ _ why reads hresolve).1] at hinbox
  have hmint := mint_refused options.method options.target why
  rw [← hinbox] at hmint
  exact ⟨_, call_refused shell options p _ _ hmint⟩

theorem granted_ends (hworks : Works shell) (hhonest : Honest config options.ask)
    (hanswer : AnswerFits config options.ask) (boundMethod : Text) (url : Url)
    (hresolve : config.grant.resolve config.parseUrl options.method options.target = .ok (boundMethod, url))
    (reads : List Bytes) (p : Process) (hmeets : Meets config shell options reads p) :
    ∃ t s, call shell options p =
      .ok (ending config options).exit
        (Process.print { p with transport := t, stream := s } (ending config options)) := by
  let boundTarget := boundTargetOf config.grant options.target
  let m : Mint := ⟨config, boundMethod, boundTarget, url⟩
  let answer := respond m options.headers options.body
  have hgranted : Granted config options.ask m := ⟨boundMethod, url, hresolve, rfl⟩
  have hinbox := hmeets.inbox
  rw [granted_sent config _ _ boundMethod url hresolve reads] at hinbox
  have hmint := mint_granted options.method options.target boundMethod boundTarget
  rw [← hinbox] at hmint
  have hup := hmeets.up
  rw [call_written shell hworks options p _ _ hmint hmeets.opened, hmeets.unwritten, List.nil_append] at hup
  have hdown := hmeets.down
  rw [granted_written config options.method options.target boundMethod url options.headers options.body hresolve
    hhonest.headers hhonest.body (hhonest.head m hgranted) reads hup] at hdown
  obtain ⟨s, hresponse⟩ := answer_read boundMethod boundTarget options.headers options.body answer
    (respond_good m options.headers options.body) (hanswer m hgranted) p.stream hmeets.opened hdown
  have hending : ending config options =
      answeredEnding options boundMethod boundTarget (responseOf answer.1 answer.2) := by
    unfold ending
    rw [hresolve]
  have hrun := call_answered shell hworks options p _ _ hmint _ s hresponse
  rw [hending]
  exact ⟨_, s, hrun⟩

theorem call_ends (hworks : Works shell) (hhonest : Honest config options.ask)
    (hanswer : AnswerFits config options.ask) (args : List Text)
    (socket : Text) (hparse : parseArgs shell.readFile args = .ok options)
    (hsocket : options.socket = some socket) (hconnect : shell.connectError socket = none)
    (reads : List Bytes) (p : Process) (hmeets : Meets config shell options reads p) :
    ∃ t s, main shell args p = (some (ending config options).exit,
      Process.print { p with transport := t, stream := s } (ending config options)) := by
  have hrun : run shell args p = call shell options p := by
    unfold run
    simp only [hparse, hsocket, hconnect]
  unfold main
  rw [hrun]
  cases hresolve : config.grant.resolve config.parseUrl options.method options.target with
  | error why =>
    obtain ⟨t, hcall⟩ := refused_ends config shell options why hresolve reads p hmeets
    have hending : ending config options = refusedEnding why := by
      unfold ending
      rw [hresolve]
    rw [hcall, hending]
    exact ⟨t, p.stream, by simp [Process.print, refusedEnding]⟩
  | ok found =>
    obtain ⟨boundMethod, url⟩ := found
    obtain ⟨t, s, hcall⟩ := granted_ends config shell options hworks hhonest hanswer boundMethod url hresolve reads p hmeets
    rw [hcall]
    exact ⟨t, s, rfl⟩

/-- The two programs can meet, whatever reads the bytes come in. -/
theorem exists_meets (hworks : Works shell) (hhonest : Honest config options.ask) :
    ∃ reads p, Meets config shell options reads p := by
  cases hresolve : config.grant.resolve config.parseUrl options.method options.target with
  | error why =>
    let p : Process := ⟨delivered [.error why.text], ⟨[], none, none, [], []⟩, [], [], []⟩
    have hmint := mint_refused options.method options.target why
    have hcall := call_refused shell options p _ _ hmint
    obtain ⟨hsent, hwritten⟩ := refused_served config _ _ why [] hresolve
    have hnothing : Segmented maxRead ([] : Bytes) [] := segmented_nil maxRead
    exact ⟨[], p, by rw [hsent], rfl, rfl, by rw [hcall]; exact hnothing, by rw [hwritten]; exact hnothing⟩
  | ok found =>
    obtain ⟨boundMethod, url⟩ := found
    let boundTarget := boundTargetOf config.grant options.target
    let m : Mint := ⟨config, boundMethod, boundTarget, url⟩
    have hgranted : Granted config options.ask m := ⟨boundMethod, url, hresolve, rfl⟩
    obtain ⟨reads, hreads⟩ := exists_segmented maxRead (by decide)
      (requestBytes boundMethod boundTarget options.headers options.body)
    obtain ⟨replies, hreplies⟩ := exists_segmented maxRead (by decide)
      (answerBytes (respond m options.headers options.body))
    let p : Process := ⟨delivered [.arg boundMethod, .arg boundTarget, .fds 1], ⟨replies, none, none, [], []⟩,
      [], [], []⟩
    have hmint := mint_granted options.method options.target boundMethod boundTarget
    have hwritten := call_written shell hworks options p _ _ hmint rfl
    have hserved := granted_written config options.method options.target boundMethod url options.headers
      options.body hresolve hhonest.headers hhonest.body (hhonest.head m hgranted) reads hreads
    exact ⟨reads, p, by rw [granted_sent config _ _ boundMethod url hresolve reads], rfl, rfl,
      by rw [hwritten]; exact hreads, by rw [hserved]; exact hreplies⟩

end Meets

/-! ## Exit codes -/

theorem exit_one_iff (config : Config) (options : Options) :
    (ending config options).exit = 1 ↔
      ∃ why, config.grant.resolve config.parseUrl options.method options.target = .error why := by
  unfold ending
  cases config.grant.resolve config.parseUrl options.method options.target with
  | error why => exact iff_of_true rfl ⟨why, rfl⟩
  | ok found =>
    refine iff_of_false ?_ nofun
    simp only [answeredEnding]
    split <;> decide

theorem refusal_marked (e : CoreError) : (responseOf (refusalFor e).1 (refusalFor e).2).refused = true := by
  obtain ⟨status, reason, detail, hstatus, heq⟩ := refusalFor_refusal e
  obtain ⟨-, -, hmarker⟩ := refusal_head status reason detail hstatus
  rw [heq]
  exact (responseOf_refused _ _).mpr hmarker

theorem answered_exit (options : Options) (method target : Text) (response : Response) :
    (answeredEnding options method target response).exit = 0 ↔
      response.refused = false ∧ (options.failOnError = true → response.status < 400) := by
  have hcode : exitHttpError ≠ 0 := by decide
  simp only [answeredEnding, ite_eq_right_iff, hcode, imp_false, not_or, not_and, Bool.not_eq_true, ge_iff_le,
    UInt16.not_le]

theorem exit_zero_iff (config : Config) (options : Options) :
    (ending config options).exit = 0 ↔
      ∃ m sent response, Granted config options.ask m ∧
        config.grant.applyHeaders (clientHeaders options.headers) = .ok sent ∧
        fetch config.net config.grant m.boundMethod m.url sent options.body = .ok response ∧
        (∀ f ∈ relayHeaders response.headers, eqIgnoreCase f.1 marker = false) ∧
        (options.failOnError = true → response.status.code < 400) := by
  unfold ending
  cases hresolve : config.grant.resolve config.parseUrl options.method options.target with
  | error why =>
    have hcode : (1 : UInt8) ≠ 0 := by decide
    refine iff_of_false hcode ?_
    rintro ⟨m, -, -, ⟨boundMethod, url, hgranted, -⟩, -⟩
    rw [Options.ask, hresolve] at hgranted
    cases hgranted
  | ok found =>
    obtain ⟨boundMethod, url⟩ := found
    let granted : Mint := ⟨config, boundMethod, boundTargetOf config.grant options.target, url⟩
    have hgranted : ∀ m, Granted config options.ask m ↔ m = granted := by
      intro m
      constructor
      · rintro ⟨boundMethod', url', hgranted, rfl⟩
        rw [Options.ask, hresolve] at hgranted
        cases hgranted
        rfl
      · rintro rfl
        exact ⟨boundMethod, url, hresolve, rfl⟩
    simp only [answered_exit, respond, hgranted]
    cases happly : config.grant.applyHeaders (clientHeaders options.headers) with
    | error why =>
      refine iff_of_false (fun h => ?_) ?_
      · rw [refusal_marked] at h
        cases h.1
      · rintro ⟨m, sent, response, -, hsent, -⟩
        cases hsent
    | ok sent =>
      simp only
      cases hfetch : fetch config.net config.grant boundMethod url sent options.body with
      | error e =>
        refine iff_of_false (fun h => ?_) ?_
        · rw [refusal_marked] at h
          cases h.1
        · rintro ⟨m, sent', response, rfl, hsent, hfetch', -⟩
          cases hsent
          rw [hfetch] at hfetch'
          cases hfetch'
      | ok response =>
        have hmarked : (responseOf (relayHead response) response.body).refused = false ↔
            ∀ f ∈ relayHeaders response.headers, eqIgnoreCase f.1 marker = false := by
          rw [← Bool.not_eq_true, responseOf_refused]
          simp [relayHead]
        rw [hmarked]
        constructor
        · rintro ⟨hplain, hstatus⟩
          exact ⟨granted, sent, response, rfl, rfl, hfetch, hplain, hstatus⟩
        · rintro ⟨m, sent', response', rfl, hsent, hfetch', hplain, hstatus⟩
          cases hsent
          rw [hfetch] at hfetch'
          cases hfetch'
          exact ⟨hplain, hstatus⟩

/-- **A command**, against a daemon: for every line that is one, and in whatever reads the bytes of either
side come, `capcurl` prints and writes what its options, the grant of its endpoint and the answer of the
origin say, and no more. It exits with 1 just when the grant does not resolve the request, and with 0 just
when the origin has answered, without the refusal marker, and with no error that `-F` makes one. -/
theorem command_ends (config : Config) (shell : Shell) (args : List Text) (options : Options)
    (socket : Text) (hparse : parseArgs shell.readFile args = .ok options)
    (hsocket : options.socket = some socket) (hconnect : shell.connectError socket = none)
    (hworks : Works shell) (hhonest : Honest config options.ask) (hanswer : AnswerFits config options.ask)
    (reads : List Bytes) (p : Process)
    (hmeets : Meets config shell options reads p) :
    (∃ t s, main shell args p = (some (ending config options).exit,
      Process.print { p with transport := t, stream := s } (ending config options))) ∧
    ((ending config options).exit = 1 ↔
      ∃ why, config.grant.resolve config.parseUrl options.method options.target = .error why) ∧
    ((ending config options).exit = 0 ↔
      ∃ m sent response, Granted config options.ask m ∧
        config.grant.applyHeaders (clientHeaders options.headers) = .ok sent ∧
        fetch config.net config.grant m.boundMethod m.url sent options.body = .ok response ∧
        (∀ f ∈ relayHeaders response.headers, eqIgnoreCase f.1 marker = false) ∧
        (options.failOnError = true → response.status.code < 400)) :=
  ⟨call_ends config shell options hworks hhonest hanswer args socket hparse hsocket hconnect reads p hmeets,
    exit_one_iff config options, exit_zero_iff config options⟩

/-- A shell with no files to read, in which nothing fails. -/
def calmShell : Shell where
  readFile := fun _ => .error (ascii "No such file or directory (os error 2)")
  connectError := fun _ => none
  writeFileError := fun _ _ => none
  stdoutError := fun _ => none

def plainArgs : List Text := [ascii "-i", ascii "-S", ascii "/run/cap", ascii "-F", ascii "/x"]

def plainOptions : Options :=
  { Options.default with
    socket := some (ascii "/run/cap")
    includeHeaders := true
    failOnError := true
    target := ascii "/x" }

theorem command_ends_plain :
    ∃ reads p t s, Meets plainMint.config calmShell plainOptions reads p ∧
      main calmShell plainArgs p = (some 0,
        Process.print { p with transport := t, stream := s } (ending plainMint.config plainOptions)) := by
  have hparse : parseArgs calmShell.readFile plainArgs = .ok plainOptions := by decide +kernel
  have hworks : Works calmShell := ⟨fun _ _ => rfl, fun _ => rfl⟩
  have hhonest : Honest plainMint.config plainOptions.ask := plain_honest
  have hanswer : AnswerFits plainMint.config plainOptions.ask := plain_fits
  have hexit : (ending plainMint.config plainOptions).exit = 0 := by decide +kernel
  obtain ⟨reads, p, hmeets⟩ := exists_meets plainMint.config calmShell plainOptions hworks hhonest
  obtain ⟨⟨t, s, hmain⟩, -⟩ := command_ends plainMint.config calmShell plainArgs plainOptions
    (ascii "/run/cap") hparse rfl rfl hworks hhonest hanswer reads p hmeets
  rw [hexit] at hmain
  exact ⟨reads, p, t, s, hmeets, hmain⟩

end Capcurl.Cli.Client
