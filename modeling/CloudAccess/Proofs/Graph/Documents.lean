import CloudAccess.Graph.Snapshot
import CloudAccess.Proofs.Decision.Basis
import CloudAccess.Proofs.Decision.Scans

/-!
# What the documents of a snapshot say

The basis of a snapshot is read off its policy documents, without a graph:

* the organization policies are those of the attachments that govern the account;
* a principal's boundary and groups are those of the last record with its name;
* a statement speaks of an owner (`Snapshot.Speaks`) with resource patterns: one of its own
  policies with the patterns as written, one of a resource that names it with the patterns
  confined to that resource.

`Graph.guardrailsOf_applicable` says that the attachments are picked in the same way.
-/

namespace CloudAccess

/-! ## Organization policies -/

/-- A target is the root, the account, or a unit that contains the account. -/
def Target.governs (account : Json) (hierarchy : Option Hierarchy) (t : Target) : Bool :=
  match t.kind, hierarchy with
  | .root, _ => true
  | .account, _ => t.id.equals account
  | .unit, none => true
  | .unit, some h => h.units.any fun u => u.key? = t.id.key?

namespace Snapshot

variable (s : Snapshot)

/-- The organization policies that govern the account of a snapshot. -/
def applicable : List Document :=
  if s.attachments.isEmpty then s.guardrails
  else (s.attachments.filter fun a => a.targets.any (Target.governs s.account s.hierarchy)).map
    Attachment.policy

end Snapshot

/-! ## Principals and resources -/

/-- What a record is named. -/
def Principal.isNamed (p : String) (P : Principal) : Bool :=
  match P.arn with
  | .str a => a = p
  | _ => false

theorem Principal.isNamed_iff {p : String} {P : Principal} :
    P.isNamed p = true ↔ P.arn = .str p := by
  unfold isNamed
  cases P.arn <;> simp

/-- The last record with a name. -/
def lastNamed (ps : List Principal) (p : String) : Option Principal :=
  ps.reverse.find? (·.isNamed p)

/-- Those who stand for everyone have one name. -/
def publicName (id : String) : String := if Arn.isAnyone id then Arn.anyone else id

/-- The statements in the policy of a resource. -/
def Resource.statements (r : Resource) : List Statement :=
  (r.policy.map Document.statements).getD []

/-- A statement speaks of an owner, with these resource patterns. -/
inductive Speaks (ps : List Principal) (rs : List Resource) (owner : String) :
    Statement → List String → Prop
  | identity {P : Principal} {d : Document} {st : Statement} :
      P ∈ ps → P.arn = .str owner → d ∈ P.policies → st ∈ d.statements →
      Speaks ps rs owner st st.resources
  | resource {R : Resource} {r : String} {d : Document} {st : Statement} {id : String} :
      R ∈ rs → R.arn = .str r → R.policy = some d → st ∈ d.statements → id ∈ st.grantees →
      publicName id = owner → Speaks ps rs owner st (confine r st.resources)

namespace Snapshot

/-- The names in a snapshot are texts. -/
structure Textual (s : Snapshot) : Prop where
  arns : ∀ P ∈ s.principals, ∃ a, P.arn = .str a
  groups : ∀ P ∈ s.principals, ∀ q ∈ P.groups, ∃ a, q = .str a
  resources : ∀ R ∈ s.resources, ∃ a, R.arn = .str a

/-- What the documents come to in a setting. -/
def basis (s : Snapshot) (x : Setting) : Basis where
  guardrails := s.applicable
  boundary p := (lastNamed s.principals p).bind Principal.boundary
  groups p := Json.textsOf (((lastNamed s.principals p).map Principal.groups).getD [])
  allows p := ∃ st patterns, Speaks s.principals s.resources p st patterns ∧
    st.effect ≠ "Deny" ∧ x.Matches st.actions patterns ∧ x.answer st.condition = .ok true
  denies p := ∃ st patterns, Speaks s.principals s.resources p st patterns ∧
    st.effect = "Deny" ∧ x.Matches st.actions patterns ∧ x.answer st.condition ≠ .ok false

end Snapshot

/-! ## Picking the organization policies -/

/-- The keys of a hierarchy's units, if it is known. -/
def UnitsOf (hierarchy : Option Hierarchy) (units : Option (List Json.Key)) : Prop :=
  match hierarchy with
  | none => units = none
  | some h => ∃ keys, h.keys = .ok keys ∧ units = some keys

theorem mem_keys {vs : List Json} {keys : List Json.Key} (h : vs.mapM Json.keyOf = .ok keys)
    (k : Json.Key) : k ∈ keys ↔ ∃ v ∈ vs, v.key? = some k := by
  have hkey (v : Json) : v.keyOf = .ok k ↔ v.key? = some k := by
    unfold Json.keyOf
    cases v.key? with
    | none => exact ⟨fun he => (by cases he), fun he => (by cases he)⟩
    | some key => simp
  simp only [mem_of_mapM h k, hkey]

variable {account : Json} {hierarchy : Option Hierarchy} {units : Option (List Json.Key)}

theorem Target.covers_governs (hu : UnitsOf hierarchy units) {t : Target} {b : Bool}
    (h : t.covers account units = .ok b) : b = t.governs account hierarchy := by
  obtain ⟨kind, id, arn, name⟩ := t
  cases kind with
  | root => exact (Except.ok.inj h).symm
  | account => exact (Except.ok.inj h).symm
  | unit =>
    cases hierarchy with
    | none =>
      obtain rfl : units = none := hu
      exact (Except.ok.inj h).symm
    | some hi =>
      obtain ⟨keys, hk, rfl⟩ := hu
      simp only [covers, Json.keyOf] at h
      cases hid : id.key? with
      | none => rw [hid] at h; cases h
      | some k =>
        rw [hid] at h
        obtain rfl := Except.ok.inj h
        rw [Bool.eq_iff_iff]
        simp only [governs, List.contains_iff_mem, mem_keys hk, List.any_eq_true, hid,
          decide_eq_true_eq]

theorem Target.anyCovers_governs (hu : UnitsOf hierarchy units) {ts : List Target} {b : Bool}
    (h : Target.anyCovers account units ts = .ok b) :
    b = ts.any (Target.governs account hierarchy) := by
  induction ts with
  | nil => exact (Except.ok.inj h).symm
  | cons t rest ih =>
    rw [Target.anyCovers] at h
    cases ht : t.covers account units with
    | error f => rw [ht] at h; cases h
    | ok head =>
      rw [List.any_cons, ← Target.covers_governs hu ht]
      rw [ht] at h
      cases head with
      | true => exact (Except.ok.inj h).symm
      | false => exact ih h

theorem Attachment.governingFrom_outcome (hu : UnitsOf hierarchy units) (as : List Attachment)
    {ds : List Document} (h : (governingFrom account units as).outcome = .ok ds) :
    ds = (as.filter fun a => a.targets.any (Target.governs account hierarchy)).map
      Attachment.policy := by
  induction as generalizing ds with
  | nil => exact (Except.ok.inj h).symm
  | cons a rest ih =>
    rw [governingFrom, Traced.outcome_bind, Traced.outcome_ofExcept] at h
    cases hc : Target.anyCovers account units a.targets with
    | error f => rw [hc] at h; cases h
    | ok covered =>
      rw [hc] at h
      have hg := Target.anyCovers_governs hu hc
      cases covered with
      | false =>
        rw [List.filter_cons_of_neg (by simp [← hg])]
        exact ih h
      | true =>
        rw [List.filter_cons_of_pos (by simp [← hg]), List.map_cons]
        simp only [ok_bind, if_true, Traced.outcome_bind] at h
        cases hr : (governingFrom account units rest).outcome with
        | error f => rw [hr] at h; cases h
        | ok ds' =>
          rw [hr] at h
          rw [← ih hr]
          exact (Except.ok.inj h).symm

/-- The organization policies that are picked are the applicable ones. -/
theorem Graph.guardrailsOf_applicable {s : Snapshot} {ds : List Document}
    (h : (guardrailsOf s).outcome = .ok ds) : ds = s.applicable := by
  unfold guardrailsOf at h
  unfold Snapshot.applicable
  split at h
  · next he =>
    rw [if_pos he]
    exact (Except.ok.inj h).symm
  · next he =>
    rw [if_neg he]
    rw [Traced.outcome_bind] at h
    have hpick : (Attachment.governing s.account s.attachments s.hierarchy).outcome = .ok ds := by
      cases hp : (Attachment.governing s.account s.attachments s.hierarchy).outcome with
      | error f => rw [hp] at h; cases h
      | ok kept => rw [hp] at h; exact h
    cases hh : s.hierarchy with
    | none =>
      rw [hh] at hpick
      have hu : UnitsOf none none := rfl
      exact Attachment.governingFrom_outcome hu s.attachments hpick
    | some hi =>
      rw [hh, Attachment.governing, Traced.outcome_bind, Traced.outcome_ofExcept] at hpick
      cases hk : hi.keys with
      | error f => rw [hk] at hpick; cases hpick
      | ok keys =>
        rw [hk] at hpick
        have hu : UnitsOf (some hi) (some keys) := ⟨keys, hk, rfl⟩
        exact Attachment.governingFrom_outcome hu s.attachments hpick

end CloudAccess
