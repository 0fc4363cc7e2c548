import Capcurl.Lib.Split
import Capcurl.Policy.Method

/-! # Which headers a client may set, and which the daemon supplies

From `capcurl-grant/src/header.rs`.
-/

namespace Capcurl.Policy

open Lib

/-- Headers a client may never set, whatever the policy. -/
def deniedClientHeaders : List Text :=
  ["authorization", "connection", "content-length", "cookie", "expect", "host", "keep-alive",
    "proxy-authenticate", "proxy-authorization", "proxy-connection", "te", "trailer",
    "transfer-encoding", "upgrade"].map ascii

inductive HeaderPolicy where
  | none
  | allExceptDenied
  | allowed (names : Finset Text)
  deriving DecidableEq

/-- Whether a client may set `lowercaseName`. -/
def HeaderPolicy.permits (policy : HeaderPolicy) (lowercaseName : Text) : Bool :=
  if deniedClientHeaders.contains lowercaseName then false
  else match policy with
    | .none => false
    | .allExceptDenied => true
    | .allowed names => lowercaseName ∈ names

/-- One turn of the loop of `HeaderPolicy::parse` over a list. -/
def HeaderPolicy.parseItem (names : Finset Text) (raw : Text) : Except GrantError (Finset Text) :=
  let name := lowercase (trim raw)
  if name.isEmpty then return names
  else if !name.all isTokenByte then throw (.injection (ascii "header name is not a token"))
  else return insert name names

/-- Parses `none`, `safe`, or `list:accept,x-trace-id`. -/
def HeaderPolicy.parse (spec : Text) : Except GrantError HeaderPolicy :=
  if spec = ascii "none" then return .none
  else if spec = ascii "safe" then return .allExceptDenied
  else if (ascii "list:").isPrefixOf spec then do
    let names ← ((spec.drop (ascii "list:").length).splitOn (ch ',')).foldlM HeaderPolicy.parseItem ∅
    return .allowed names
  else throw (.injection (ascii "header policy must be 'none', 'safe' or 'list:a,b'"))

structure Injection where
  name : Text
  value : Text
  deriving DecidableEq, Repr

/-! ## Parsing an injection -/

section Parse

-- `std::fs::read_to_string`, where it succeeds.
variable (readFile : Text → Option Text)

/-- One word of a header value: `@path` stands for the contents of the file, less its last newlines. -/
def expandWord (word : Text) : Except GrantError Text :=
  if word.head? = some (ch '@') then
    match readFile word.tail with
    | some contents => return contents.rdropWhile fun b => b == 13 || b == 10
    | none => throw (.injection (ascii "cannot read header value file"))
  else return word

def expandFileReferences (value : Text) : Except GrantError Text :=
  if !(splitWhitespace value).any fun word => word.head? == some (ch '@') then return value
  else return [ch ' '].intercalate (← (splitWhitespace value).mapM (expandWord readFile))

def isFieldValueByte (b : Byte) : Bool := isFieldByte b

/-- Parses `Name: value`. -/
def Injection.parse (spec : Text) : Except GrantError Injection :=
  match splitOnce (ch ':') spec with
  | none => throw (.injection (ascii "expected 'Name: value'"))
  | some (name, value) => do
    let name := trim name
    let value := trim value
    if name.isEmpty || !name.all isTokenByte then
      throw (.injection (ascii "header name is not a token"))
    let value ← expandFileReferences readFile value
    if !value.all isFieldValueByte then
      throw (.injection (ascii "header value has a forbidden byte"))
    return { name, value }

end Parse

end Capcurl.Policy
