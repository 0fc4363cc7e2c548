import Capcurl.Lib.CommandLine
import Capcurl.Lib.Rust
import Capcurl.Policy.Grant

/-! # The command line of the daemon

From `capcurld/src/main.rs`.
-/

namespace Capcurl.Cli.Capcurld

open Lib Policy

def usage : Text := ascii "usage: capcurld -U <base-uri> [-S <socket>] [options]

  -U <uri>       base URI this capability is bound to (required).
                 A trailing slash means a prefix, and the client names
                 what is beneath it. No trailing slash means exactly that
                 one resource, and the client's target is just '/'.
  -S <path>      listen on this Unix socket
  -1             serve one connection already present on stdin
  -X <methods>   permitted methods, comma separated (default: GET,HEAD)
  -H <hdr>       inject 'Name: value' on every request; any word
                 beginning with @ is replaced by that file's contents,
                 e.g. 'Authorization: Bearer @/run/secrets/tok' (repeatable)
  -c <policy>    client headers: none | safe | list:a,b (default: safe)
  -f <request>   pin one exact request, e.g. -f 'GET /status'
  -o <user:grp>  socket ownership
  -m <mode>      socket permission bits (default: 0600)
  -q             refuse client-supplied query strings
  -e             permit %2F and %5C inside path segments
  -t <seconds>   upstream timeout (default: 30)
  --max-request-body <bytes>
  --max-response-body <bytes>
"

/-! ## Options -/

/-- Everything the command line can say. -/
structure Options where
  base : Option Text
  socket : Option Text
  oneShot : Bool
  methods : Option Text
  injections : List Text
  headerPolicy : Option Text
  fixed : Option Text
  owner : Option Text
  mode : Option Text
  allowQuery : Bool
  allowEncodedSeparators : Bool
  timeout : UInt64
  maxRequestBody : Option UInt64
  maxResponseBody : Option UInt64
  deriving DecidableEq, Repr

def Options.default : Options where
  base := none
  socket := none
  oneShot := false
  methods := none
  injections := []
  headerPolicy := none
  fixed := none
  owner := none
  mode := none
  allowQuery := true
  allowEncodedSeparators := false
  timeout := 30
  maxRequestBody := none
  maxResponseBody := none

inductive Flag where
  | base
  | socket
  | methods
  | injection
  | headerPolicy
  | fixed
  | owner
  | mode
  | timeout
  | maxRequestBody
  | maxResponseBody
  | oneShot
  | noQuery
  | encodedSeparators
  deriving DecidableEq, Repr

def Flag.text : Flag → Text
  | .base => ascii "-U"
  | .socket => ascii "-S"
  | .methods => ascii "-X"
  | .injection => ascii "-H"
  | .headerPolicy => ascii "-c"
  | .fixed => ascii "-f"
  | .owner => ascii "-o"
  | .mode => ascii "-m"
  | .timeout => ascii "-t"
  | .maxRequestBody => ascii "--max-request-body"
  | .maxResponseBody => ascii "--max-response-body"
  | .oneShot => ascii "-1"
  | .noQuery => ascii "-q"
  | .encodedSeparators => ascii "-e"

def flags : List Flag :=
  [.base, .socket, .methods, .injection, .headerPolicy, .fixed, .owner, .mode, .timeout, .maxRequestBody,
    .maxResponseBody, .oneShot, .noQuery, .encodedSeparators]

def readFlag (arg : Text) : Except Stop Flag :=
  match flags.find? fun flag => flag.text == arg with
  | some flag => return flag
  | none =>
    if arg = ascii "-h" ∨ arg = ascii "--help" then throw .help
    else throw (.failed (ascii "unknown option " ++ arg ++ ascii "\n\n" ++ usage))

/-- `str::parse` of a `u64`. -/
def parseU64 (text : Text) : Option UInt64 := (parseUnsigned 10 u64Bound text).map UInt64.ofNat

/-- A value that has to be a number. -/
def number (why : Text) (set : Options → UInt64 → Options) : OptionKind Text Stop Options :=
  .valued fun value options =>
    match parseU64 value with
    | some n => return set options n
    | none => throw (.failed why)

def byteCount (flag : Flag) : Text := flag.text ++ ascii " takes a byte count"

def flagKind : Flag → OptionKind Text Stop Options
  | .base => .valued fun value options => return { options with base := some value }
  | .socket => .valued fun value options => return { options with socket := some value }
  | .methods => .valued fun value options => return { options with methods := some value }
  | .injection => .valued fun value options => return { options with injections := options.injections ++ [value] }
  | .headerPolicy => .valued fun value options => return { options with headerPolicy := some value }
  | .fixed => .valued fun value options => return { options with fixed := some value }
  | .owner => .valued fun value options => return { options with owner := some value }
  | .mode => .valued fun value options => return { options with mode := some value }
  | .timeout => number (ascii "-t takes a number of seconds") fun options n => { options with timeout := n }
  | .maxRequestBody =>
    number (byteCount .maxRequestBody) fun options n => { options with maxRequestBody := some n }
  | .maxResponseBody =>
    number (byteCount .maxResponseBody) fun options n => { options with maxResponseBody := some n }
  | .oneShot => .alone fun options => return { options with oneShot := true }
  | .noQuery => .alone fun options => return { options with allowQuery := false }
  | .encodedSeparators => .alone fun options => return { options with allowEncodedSeparators := true }

def commandLine : CommandLine Text Stop Options Flag where
  read := readFlag
  kind := flagKind
  missing := fun flag => .failed (flag.text ++ ascii " requires an argument")

/-- `parse_args`, of the arguments after the program's name. -/
def parseArgs (args : List Text) : Except Stop Options := commandLine.parse .default args

/-! ## The grant -/

section Build

variable (parseUrl : Text → Option Url) (readFile : Text → Option Text)

def setMethods (options : Options) (grant : Grant) : Except Text Grant :=
  match options.methods with
  | some methods => do
    let methods ← (MethodSet.parse methods).mapError GrantError.text
    return grant.withMethods methods
  | none => return grant

def inject (grant : Grant) (spec : Text) : Except Text Grant := do
  let injection ← (Injection.parse readFile spec).mapError GrantError.text
  return grant.withInjection injection

def setHeaderPolicy (options : Options) (grant : Grant) : Except Text Grant :=
  match options.headerPolicy with
  | some policy => do
    let policy ← (HeaderPolicy.parse policy).mapError GrantError.text
    return grant.withHeaderPolicy policy
  | none => return grant

/-- The request that `-f` names. -/
def parseFixed (spec : Text) : Except Text FixedRequest :=
  match splitOnce (ch ' ') spec with
  | some (method, target) => return { method := trim method, target := trim target }
  | none => throw (ascii "-f takes a method and a target, e.g. -f 'GET /status'")

def setFixed (options : Options) (grant : Grant) : Except Text Grant :=
  match options.fixed with
  | some fixed => do
    let fixed ← parseFixed fixed
    return grant.withFixedRequest fixed
  | none => return grant

def setLimits (options : Options) (grant : Grant) : Grant :=
  if options.maxRequestBody.isSome || options.maxResponseBody.isSome then
    grant.withBodyLimits (options.maxRequestBody.getD defaultMaxBody)
      (options.maxResponseBody.getD defaultMaxBody)
  else grant

/-- Assembles the grant from the parsed options. -/
def buildGrant (options : Options) : Except Text Grant :=
  match options.base with
  | none => throw (ascii "-U <base-uri> is required")
  | some base => do
    let grant ← (Grant.new parseUrl base).mapError GrantError.text
    let grant ← setMethods options grant
    let grant ← options.injections.foldlM (inject readFile) grant
    let grant ← setHeaderPolicy options grant
    let grant ← setFixed options grant
    let grant := (grant.withQueryAllowed options.allowQuery).withEncodedSeparatorsAllowed
      options.allowEncodedSeparators
    return setLimits options grant

/-- The options and the grant of a command line: the beginning of `run`. -/
def configure (args : List Text) : Except Stop (Options × Grant) := do
  let options ← parseArgs args
  let grant ← (buildGrant parseUrl readFile options).mapError .failed
  return (options, grant)

end Build

end Capcurl.Cli.Capcurld
