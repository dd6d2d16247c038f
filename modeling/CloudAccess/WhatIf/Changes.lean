import CloudAccess.Identifier
import CloudAccess.Inventory.Snapshot
import CloudAccess.OrderedMap
import CloudAccess.Run

/-!
# Proposed changes

`Changes.apply` gives the snapshot as it would be after a set of changes: principals are added,
policies are appended, principals are removed, and then resources are added and removed.  What is
both added and removed ends up removed.
-/

namespace CloudAccess

structure Changes where
  addPrincipals : List Principal
  /-- Identifiers of principals to remove. -/
  removePrincipals : List Json
  /-- Policies to append, by the identifier of the principal. -/
  appendPolicies : OrderedMap String (List Document)
  addResources : List Resource
  /-- Identifiers of resources to remove. -/
  removeResources : List Json

namespace Changes

def none : Changes := ⟨[], [], .empty, [], []⟩

/-- The policies to append to whoever has an identifier. -/
def policiesFor (c : Changes) (arn : Json) : List Document :=
  match arn with
  | .str s => (c.appendPolicies.get? s).getD []
  | _ => []

/-- A principal with the policies appended that are meant for it. -/
def appendTo (c : Changes) (p : Principal) : Principal :=
  { p with policies := p.policies ++ c.policiesFor p.arn }

/-- The identifiers, in ascending order, of those to append policies to that are not there. -/
def strangers (c : Changes) (principals : List Principal) : List String :=
  (c.appendPolicies.keys.filter fun id => !principals.any fun p => p.arn.same (.str id)).mergeSort
    fun a b => a ≤ b

/-- Those of a list whose identifier is not among some others. -/
def without {α : Type} (arn : α → Json) (removed : List Json) (items : List α) :
    Except Fault (List α) := do
  if removed.isEmpty then return items
  let ids ← removed.mapM Identifier.ofJson
  items.filterM fun a => do return !ids.contains (← Identifier.ofJson (arn a))

/-- The snapshot after the changes. -/
def apply (c : Changes) (s : Snapshot) : Run Fault Snapshot := do
  let extended := s.principals ++ c.addPrincipals
  let _ ← Traced.ofExcept (extended.mapM fun p => Identifier.ofJson p.arn)
  let appended := extended.map c.appendTo
  tell (c.strangers appended)
  let principals ← Traced.ofExcept (without Principal.arn c.removePrincipals appended)
  let resources ← Traced.ofExcept
    (without Resource.arn c.removeResources (s.resources ++ c.addResources))
  return { s with principals, resources }
where
  tell : List String → Run Fault Unit
    | [] => pure ()
    | id :: rest => do
      Traced.note (.updateIgnored id)
      tell rest

end Changes
end CloudAccess
