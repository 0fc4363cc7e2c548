import Capcurl.Core.Exchange
import Capcurl.Lib.CommandLine

/-! # The program of the client

From `capcurl/src/main.rs`.
-/

namespace Capcurl.Cli.Client

open Lib Capcurl.Core Http

def usage : Text := ascii "usage: capcurl -S <socket> [options] [target]

  -S <path>      capability endpoint to mint from (required)
  -X <method>    request method (default: GET)
  -H <hdr>       send 'Name: value' (repeatable)
  -d <data>      request body; @<path> reads the body from a file
  -i             print response headers before the body
  -o <path>      write the body to a file instead of stdout
  -F             exit non-zero on a 4xx or 5xx response

  target         request-target relative to the capability (default: /)
"

/-- The exit code for an HTTP error. -/
def exitHttpError : UInt8 := 22

/-! ## Options -/

structure Options where
  socket : Option Text
  method : Text
  headers : List Header
  body : Bytes
  includeHeaders : Bool
  output : Option Text
  failOnError : Bool
  target : Text
  deriving DecidableEq, Repr

def Options.default : Options where
  socket := none
  method := ascii "GET"
  headers := []
  body := []
  includeHeaders := false
  output := none
  failOnError := false
  target := ascii "/"

/-- The options read so far, and whether one of the arguments was a target. -/
structure Settings where
  options : Options
  sawTarget : Bool
  deriving DecidableEq, Repr

def Settings.default : Settings := ⟨.default, false⟩

inductive Flag where
  | socket
  | method
  | header
  | data
  | output
  | includeHeaders
  | failOnError
  /-- The argument itself. -/
  | target (text : Text)
  deriving DecidableEq, Repr

def readFlag (arg : Text) : Except Stop Flag :=
  if arg = ascii "-S" then return .socket
  else if arg = ascii "-X" then return .method
  else if arg = ascii "-H" then return .header
  else if arg = ascii "-d" then return .data
  else if arg = ascii "-o" then return .output
  else if arg = ascii "-i" then return .includeHeaders
  else if arg = ascii "-F" then return .failOnError
  else if arg = ascii "-h" ∨ arg = ascii "--help" then throw .help
  else if (ascii "-").isPrefixOf arg ∧ arg.length > 1 then
    throw (.failed (ascii "unknown option " ++ arg ++ ascii "\n\n" ++ usage))
  else return .target arg

section Parse

-- `std::fs::read`: the bytes, or what the error displays as.
variable (readFile : Text → Except Text Bytes)

/-- The header that `-H` names. -/
def parseHeader (spec : Text) : Except Stop Header :=
  match splitOnce (ch ':') spec with
  | some (name, value) => return (trim name, trim value)
  | none => throw (.failed (ascii "-H takes 'Name: value'"))

/-- The body that `-d` names. -/
def readData (spec : Text) : Except Stop Bytes :=
  match spec with
  | [] => return []
  | b :: path =>
    if b = ch '@' then
      match readFile path with
      | .ok bytes => return bytes
      | .error e =>
        throw (.failed (ascii "cannot read request body from " ++ path ++ ascii ": " ++ e))
    else return b :: path

def setTarget (text : Text) (settings : Settings) : Except Stop Settings :=
  if settings.sawTarget then throw (.failed (ascii "only one target may be given"))
  else return { options := { settings.options with target := text }, sawTarget := true }

/-- An option that sets one of the options. -/
def setting (set : Options → Options) (settings : Settings) : Except Stop Settings :=
  return { settings with options := set settings.options }

def flagKind : Flag → OptionKind Text Stop Settings
  | .socket => .valued fun value => setting fun options => { options with socket := some value }
  | .method => .valued fun value => setting fun options => { options with method := value }
  | .header => .valued fun value settings => do
    let field ← parseHeader value
    setting (fun options => { options with headers := options.headers ++ [field] }) settings
  | .data => .valued fun value settings => do
    let body ← readData readFile value
    setting (fun options => { options with body }) settings
  | .output => .valued fun value => setting fun options => { options with output := some value }
  | .includeHeaders => .alone (setting fun options => { options with includeHeaders := true })
  | .failOnError => .alone (setting fun options => { options with failOnError := true })
  | .target text => .alone (setTarget text)

def Flag.text : Flag → Text
  | .socket => ascii "-S"
  | .method => ascii "-X"
  | .header => ascii "-H"
  | .data => ascii "-d"
  | .output => ascii "-o"
  | .includeHeaders => ascii "-i"
  | .failOnError => ascii "-F"
  | .target text => text

def commandLine : CommandLine Text Stop Settings Flag where
  read := readFlag
  kind := flagKind readFile
  missing := fun flag => .failed (flag.text ++ ascii " requires an argument")

/-- `parse_args`, of the arguments after the program's name. -/
def parseArgs (args : List Text) : Except Stop Options :=
  return (← (commandLine readFile).parse .default args).options

end Parse

/-! ## The run -/

/-- What the program finds around it. Where something fails, this is what its error displays as. -/
structure Shell where
  readFile : Text → Except Text Bytes
  connectError : Text → Option Text
  writeFileError : Text → Bytes → Option Text
  stdoutError : Bytes → Option Text

/-- The program's two channels, and what it has written. -/
structure Process where
  transport : Transport
  stream : Stream
  stdout : Bytes
  stderr : List Text
  files : List (Text × Bytes)

abbrev ProcessM := EStateM (Halt Stop) Process

/-- `map_err(|e| e.to_string())` -/
def displayed : Halt CoreError → Halt Stop
  | .err e => .err (.failed e.text)
  | .panic => .panic
  | .fuel => .fuel

def fail {α : Type} (why : Text) : ProcessM α := throw (.err (.failed why))

def eprintln (line : Text) : ProcessM Unit := modify fun p => { p with stderr := p.stderr ++ [line] }

def onTransport {α : Type} (m : TransportM α) : ProcessM α := fun p =>
  match m p.transport with
  | .ok a transport => .ok a { p with transport }
  | .error e transport => .error (displayed e) { p with transport }

def onStream {α : Type} (m : StreamM α) : ProcessM α := fun p =>
  match m p.stream with
  | .ok a stream => .ok a { p with stream }
  | .error e stream => .error (displayed e) { p with stream }

/-- The response head, as `-i` prints it. -/
def printedHead (response : Response) : Bytes :=
  ascii "HTTP/1.1 " ++ decimal response.status.toNat ++ ascii " " ++ response.reason ++ ascii "\n" ++
    response.headers.flatMap (fun field => field.1 ++ ascii ": " ++ field.2 ++ ascii "\n") ++ ascii "\n"

section Run

variable (shell : Shell)

/-- `print!`, which panics where it cannot. -/
def print (bytes : Bytes) : ProcessM Unit :=
  match shell.stdoutError bytes with
  | none => modify fun p => { p with stdout := p.stdout ++ bytes }
  | some _ => throw .panic

def writeBody (output : Option Text) (body : Bytes) : ProcessM Unit :=
  match output with
  | some path =>
    match shell.writeFileError path body with
    | none => modify fun p => { p with files := p.files ++ [(path, body)] }
    | some e => fail (ascii "cannot write " ++ path ++ ascii ": " ++ e)
  | none =>
    match shell.stdoutError body with
    | none => modify fun p => { p with stdout := p.stdout ++ body }
    | some e => fail (ascii "cannot write to stdout: " ++ e)

def printHead (options : Options) (response : Response) : ProcessM Unit :=
  if options.includeHeaders then print shell (printedHead response) else return

/-- The exit code. A refusal is a policy answer, not an origin's: it is reported without `-F`, too. -/
def exitCode (options : Options) (response : Response) : ProcessM UInt8 :=
  if response.refused then do
    eprintln (ascii "capcurl: refused by the capability (" ++ decimal response.status.toNat ++ ascii ")")
    return exitHttpError
  else if options.failOnError ∧ response.status ≥ 400 then return exitHttpError
  else return 0

/-- A pinned endpoint ignores what was asked for. -/
def tellBinding (options : Options) (capability : MintedCapability) : ProcessM Unit :=
  if capability.method ≠ options.method ∨ capability.target ≠ options.target then
    eprintln (ascii "capcurl: endpoint is pinned; fetching " ++ capability.method ++ ascii " " ++
      capability.target)
  else return

/-- `run`, once it has its options and an endpoint. -/
def call (options : Options) : ProcessM UInt8 := do
  let capability ← onTransport (mint options.method options.target)
  tellBinding options capability
  let response ← onStream (requestOverFd capability.method capability.target options.headers options.body)
  printHead shell options response
  writeBody shell options.output response.body
  exitCode options response

def run (args : List Text) : ProcessM UInt8 :=
  match parseArgs shell.readFile args with
  | .error stop => throw (.err stop)
  | .ok options =>
    match options.socket with
    | none => fail (ascii "-S <socket> is required")
    | some socket =>
      match shell.connectError socket with
      | some e => fail (ascii "cannot reach the capability at " ++ socket ++ ascii ": " ++ e)
      | none => call shell options

/-- `main`: the exit code, and what the process has done. A panic, and a `run` that the model has cut
short, have none. -/
def main (args : List Text) (p : Process) : Option UInt8 × Process :=
  match run shell args p with
  | .ok code p => (some code, p)
  | .error (.err .help) p => (some 0, { p with stdout := p.stdout ++ usage })
  | .error (.err (.failed e)) p => (some 1, { p with stderr := p.stderr ++ [ascii "capcurl: " ++ e] })
  | .error .panic p => (none, p)
  | .error .fuel p => (none, p)

end Run

end Capcurl.Cli.Client
