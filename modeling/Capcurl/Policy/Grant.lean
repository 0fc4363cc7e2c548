import Capcurl.Policy.Header
import Capcurl.Policy.Target

/-!
# What an endpoint is allowed to reach

From `capcurl-grant/src/lib.rs`. `Url::parse` is not part of the repository: it is the parameter
`parseUrl`, and a `Url` is what the accessors of a parsed URL return.
-/

namespace Capcurl.Policy

open Lib

structure Url where
  scheme : Text
  username : Text
  password : Option Text
  host : Option Text
  authority : Text
  path : Text
  query : Option Text
  fragment : Option Text
  deriving DecidableEq, Repr

inductive Scope where
  | exact
  | prefixed
  deriving DecidableEq, Repr

/-- The trailing slash decides. -/
def Scope.ofPath (path : Text) : Scope :=
  if path.getLast? = some (ch '/') then .prefixed else .exact

inductive WhichBody where
  | request
  | response
  deriving DecidableEq, Repr

def WhichBody.text : WhichBody → Text
  | .request => ascii "request"
  | .response => ascii "response"

/-- Why a request was refused. -/
inductive Denied where
  | method (name : Text)
  | target (e : TargetError)
  | header (name : Text)
  | tooLarge (what : WhichBody) (limit : UInt64)
  | escape
  | notFixedRequest
  | exactResource
  deriving DecidableEq, Repr

def Denied.text : Denied → Text
  | .method name => ascii "method " ++ name ++ ascii " is not permitted by this capability"
  | .target e => ascii "request-target rejected: " ++ e.text
  | .header name => ascii "client may not set header " ++ name
  | .tooLarge what limit =>
    what.text ++ ascii " body exceeds the " ++ decimal limit.toNat ++
      ascii "-byte limit of this capability"
  | .escape => ascii "resolved URL escapes the capability's base URI"
  | .notFixedRequest => ascii "this capability is bound to a single fixed request"
  | .exactResource =>
    ascii "this capability names one exact resource; the only valid request-target is '/'"

structure FixedRequest where
  method : Text
  target : Text
  deriving DecidableEq, Repr

/-- A URI-bound capability. The scope is always the one its base says. -/
structure Grant where
  base : Url
  scope : Scope
  methods : MethodSet
  injections : List Injection
  headers : HeaderPolicy
  fixed : Option FixedRequest
  allowQuery : Bool
  allowEncodedSeparators : Bool
  maxRequestBody : UInt64
  maxResponseBody : UInt64
  scope_eq : scope = Scope.ofPath base.path

def defaultMaxBody : UInt64 := 8 * 1024 * 1024

/-! ## Building a grant -/

section New

variable (parseUrl : Text → Option Url)

def Grant.new (base : Text) : Except GrantError Grant :=
  match parseUrl base with
  | none => throw (.baseUri (ascii "not a valid URL"))
  | some base => do
    if ¬ (base.scheme = ascii "http" ∨ base.scheme = ascii "https") then
      throw (.baseUri (ascii "scheme must be http or https"))
    if base.host.isNone then throw (.baseUri (ascii "no host"))
    if !base.username.isEmpty || base.password.isSome then
      throw (.baseUri (ascii "userinfo is not allowed; inject credentials with a header instead"))
    if base.query.isSome then throw (.baseUri (ascii "query string is not allowed"))
    if base.fragment.isSome then throw (.baseUri (ascii "fragment is not allowed"))
    return {
      base
      scope := Scope.ofPath base.path
      methods := .safeDefault
      injections := []
      headers := .allExceptDenied
      fixed := none
      allowQuery := true
      allowEncodedSeparators := false
      maxRequestBody := defaultMaxBody
      maxResponseBody := defaultMaxBody
      scope_eq := rfl }

end New

def Grant.withMethods (grant : Grant) (methods : MethodSet) : Grant := { grant with methods }

def Grant.withInjection (grant : Grant) (injection : Injection) : Grant :=
  { grant with injections := grant.injections ++ [injection] }

def Grant.withHeaderPolicy (grant : Grant) (policy : HeaderPolicy) : Grant :=
  { grant with headers := policy }

/-- Pins the endpoint to one exact request, and the method set to its method. -/
def Grant.withFixedRequest (grant : Grant) (fixed : FixedRequest) : Grant :=
  let methods := match canonicalize fixed.method with
    | some method =>
      match MethodSet.parse method with
      | .ok only => only
      | .error _ => grant.methods
    | none => grant.methods
  { grant with methods, fixed := some fixed }

def Grant.withQueryAllowed (grant : Grant) (allow : Bool) : Grant := { grant with allowQuery := allow }

def Grant.withEncodedSeparatorsAllowed (grant : Grant) (allow : Bool) : Grant :=
  { grant with allowEncodedSeparators := allow }

def Grant.withBodyLimits (grant : Grant) (request response : UInt64) : Grant :=
  { grant with maxRequestBody := request, maxResponseBody := response }

/-- The grants a program can hold: `new`, then any builder calls. -/
inductive Grant.Built (parseUrl : Text → Option Url) : Grant → Prop where
  | new {base : Text} {grant : Grant} : Grant.new parseUrl base = .ok grant → Built parseUrl grant
  | methods {grant : Grant} (methods : MethodSet) :
    Built parseUrl grant → Built parseUrl (grant.withMethods methods)
  | injection {grant : Grant} (injection : Injection) :
    Built parseUrl grant → Built parseUrl (grant.withInjection injection)
  | headerPolicy {grant : Grant} (policy : HeaderPolicy) :
    Built parseUrl grant → Built parseUrl (grant.withHeaderPolicy policy)
  | fixedRequest {grant : Grant} (fixed : FixedRequest) :
    Built parseUrl grant → Built parseUrl (grant.withFixedRequest fixed)
  | queryAllowed {grant : Grant} (allow : Bool) :
    Built parseUrl grant → Built parseUrl (grant.withQueryAllowed allow)
  | encodedSeparators {grant : Grant} (allow : Bool) :
    Built parseUrl grant → Built parseUrl (grant.withEncodedSeparatorsAllowed allow)
  | bodyLimits {grant : Grant} (request response : UInt64) :
    Built parseUrl grant → Built parseUrl (grant.withBodyLimits request response)

/-! ## Resolving a request -/

section Resolve

variable (parseUrl : Text → Option Url)

/-- Joins a normalized target onto the base URI, as text, and re-verifies the parsed result. -/
def Grant.join (grant : Grant) (target : NormalizedTarget) : Except Denied Url :=
  let query := match target.query with
    | some query => ascii "?" ++ query
    | none => []
  let assembled := grant.base.scheme ++ ascii "://" ++ grant.base.authority ++ grant.base.path ++
    target.path ++ query
  match parseUrl assembled with
  | none => throw .escape
  | some url =>
    if url.scheme ≠ grant.base.scheme ∨ url.authority ≠ grant.base.authority ∨
        !grant.base.path.isPrefixOf url.path then throw .escape
    else return url

def Grant.effective (grant : Grant) (method target : Text) : Text × Text :=
  match grant.fixed with
  | some fixed => (fixed.method, fixed.target)
  | none => (method, target)

/-- The absolute URL that the daemon may fetch, with the canonical method. -/
def Grant.resolve (grant : Grant) (method target : Text) : Except Denied (Text × Url) := do
  let (method, target) := grant.effective method target
  match canonicalize method with
  | none => throw (.method (sanitize method))
  | some method =>
    if !grant.methods.contains method then throw (.method method)
    let normalized ← (normalizeTarget target grant.allowEncodedSeparators).mapError .target
    if normalized.query.isSome && !grant.allowQuery then throw (.target .queryNotAllowed)
    if grant.scope = .exact && !normalized.path.isEmpty then throw .exactResource
    let url ← grant.join parseUrl normalized
    return (method, url)

end Resolve

/-! ## Headers for the origin -/

/-- One turn of the header loop of `apply_headers`. -/
def Grant.admitHeader (grant : Grant) (out : List (Text × Text)) (field : Text × Text) :
    Except Denied (List (Text × Text)) :=
  let lower := lowercase field.1
  if (grant.injections.map fun i => lowercase i.name).contains lower then
    throw (.header (sanitize field.1))
  else if !grant.headers.permits lower then throw (.header (sanitize field.1))
  else return out ++ [field]

/-- Filters client headers and appends the grant's injections. -/
def Grant.applyHeaders (grant : Grant) (client : List (Text × Text)) :
    Except Denied (List (Text × Text)) := do
  let out ← client.foldlM grant.admitHeader []
  return out ++ grant.injections.map fun i => (i.name, i.value)

end Capcurl.Policy
