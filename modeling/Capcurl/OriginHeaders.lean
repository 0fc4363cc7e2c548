import Capcurl.Confinement
import Capcurl.Relay

/-! # The headers of the origin leg -/

namespace Capcurl.OriginHeaders

open Lib Http Policy Capcurl.Core Session Confinement

/-! ## The policy -/

/-- Whether a policy has room for a name, the denied ones apart. -/
def admits : HeaderPolicy → Text → Bool
  | .none, _ => false
  | .allExceptDenied, _ => true
  | .allowed names, lower => lower ∈ names

/-- A client may not set this header: its name is injected, in any letter case, or it is denied, or the
policy has no room for it. -/
def offends (grant : Grant) (field : Header) : Bool :=
  grant.injections.any (fun i => eqIgnoreCase i.name field.1) ||
    deniedClientHeaders.contains (lowercase field.1) || !admits grant.headers (lowercase field.1)

def injected (grant : Grant) : List Header := grant.injections.map fun i => (i.name, i.value)

section Policy

variable (grant : Grant)

theorem permits_eq (policy : HeaderPolicy) (lower : Text) :
    policy.permits lower = (!deniedClientHeaders.contains lower && admits policy lower) := by
  unfold HeaderPolicy.permits
  split
  · rename_i hdenied
    rw [hdenied]
    rfl
  · rename_i hdenied
    rw [Bool.not_eq_true] at hdenied
    rw [hdenied]
    cases policy <;> rfl

theorem admitHeader_eq (out : List Header) (field : Header) :
    grant.admitHeader out field =
      if offends grant field then .error (.header (sanitize field.1)) else .ok (out ++ [field]) := by
  have hinjected : (grant.injections.map fun i => lowercase i.name).contains (lowercase field.1) =
      grant.injections.any fun i => eqIgnoreCase i.name field.1 := by
    rw [Bool.eq_iff_iff, List.contains_iff_mem, List.mem_map, List.any_eq_true]
    simp only [eqIgnoreCase_iff]
  unfold Grant.admitHeader
  simp only
  rw [hinjected, permits_eq, offends]
  cases grant.injections.any fun i => eqIgnoreCase i.name field.1
  · cases deniedClientHeaders.contains (lowercase field.1)
    · cases admits grant.headers (lowercase field.1) <;> rfl
    · rfl
  · rfl

theorem admitHeaders_eq (client out : List Header) :
    client.foldlM grant.admitHeader out =
      match client.find? (offends grant) with
      | some field => .error (.header (sanitize field.1))
      | none => .ok (out ++ client) := by
  induction client generalizing out with
  | nil => simp [pure, Except.pure]
  | cons field client ih =>
    rw [List.foldlM_cons, admitHeader_eq, List.find?_cons]
    cases offends grant field with
    | true => rfl
    | false =>
      have htail := ih (out ++ [field])
      rw [List.append_assoc] at htail
      exact htail

theorem applyHeaders_eq (client : List Header) :
    grant.applyHeaders client =
      match client.find? (offends grant) with
      | some field => .error (.header (sanitize field.1))
      | none => .ok (client ++ injected grant) := by
  unfold Grant.applyHeaders
  rw [admitHeaders_eq]
  cases client.find? (offends grant) <;> rfl

/-! ## What is accepted -/

end Policy

end Capcurl.OriginHeaders
