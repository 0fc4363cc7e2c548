import Capcurl.Lib.Utf8
import Mathlib.Data.Finset.Sort

/-! # The methods a grant permits

From `capcurl-grant/src/method.rs`, with `sanitize` from `capcurl-grant/src/lib.rs`.
-/

namespace Capcurl.Policy

open Lib

inductive GrantError where
  | baseUri (why : Text)
  | injection (why : Text)
  | method (name : Text)
  deriving DecidableEq, Repr

def GrantError.text : GrantError → Text
  | .baseUri why => ascii "invalid base URI: " ++ why
  | .injection why => ascii "invalid header injection: " ++ why
  | .method name => ascii "invalid method: " ++ name

/-- Untrusted text made safe for an error string. -/
def sanitize (s : Text) : Text :=
  let cleaned := (s.filter fun b => isGraphic b || b == ch ' ').take 64
  if cleaned.isEmpty then ascii "<empty>" else cleaned

def isTokenByte (b : Byte) : Bool := isTchar b

/-- Uppercases a method and verifies it is an HTTP token. -/
def canonicalize (method : Text) : Option Text :=
  if method.isEmpty || method.length > 32 then none
  else if !method.all isTokenByte then none
  else some (uppercase method)

/-- A `BTreeSet` of canonical methods. -/
structure MethodSet where
  methods : Finset Text
  deriving DecidableEq

def MethodSet.safeDefault : MethodSet := ⟨{ascii "GET", ascii "HEAD"}⟩

def MethodSet.parseItem (set : Finset Text) (raw : Text) : Except GrantError (Finset Text) :=
  let raw := trim raw
  if raw.isEmpty then return set
  else match canonicalize raw with
    | some method => return insert method set
    | none => throw (.method (sanitize raw))

def MethodSet.parse (spec : Text) : Except GrantError MethodSet := do
  let set ← (spec.splitOn (ch ',')).foldlM MethodSet.parseItem ∅
  if set = ∅ then throw (.method (ascii "<empty>"))
  return ⟨set⟩

def MethodSet.contains (set : MethodSet) (method : Text) : Bool := method ∈ set.methods

/-- The permitted methods, in sorted order. -/
def MethodSet.iter (set : MethodSet) : List Text := set.methods.sort

/-- What a method set displays as. -/
def MethodSet.text (set : MethodSet) : Text := [ch ','].intercalate set.iter

end Capcurl.Policy
