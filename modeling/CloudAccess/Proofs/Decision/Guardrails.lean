import CloudAccess.Proofs.Decision.Comparison

/-!
# Decisions under other organization policies

`Graph.under` is a graph with other organization policies.  Only the first layer looks at them, so
every other layer answers as before (`under_ownVerdict`).

That layer is to leave the root of an account alone, and does so when the root itself is decided
for.  A group of the root is decided for in its own name, though, and then the layer does look: the
organization can take from the root what it would have from a group, and nothing else:

    ((g.under []).decision … root).outcome = .ok d →
      the decision of `g` is `d`, unless `d` came from a group                    (decision_of_root)

A run through the layers is cut in two by `settle_append`: the layers of one's own, then the
groups.

A part of the policies takes nothing away if it is empty or allows the request itself
(`follows_under`, `lets_of_subset`).
-/

namespace CloudAccess

open Condition (Evaluator)

/-! ## Going through the layers -/

section

variable {v v' : Layer → Run Fault Verdict}

theorem settle_congr {ls : List Layer} (h : ∀ l ∈ ls, v l = v' l) :
    Graph.settle v ls = Graph.settle v' ls := by
  induction ls with
  | nil => rfl
  | cons l rest ih =>
    rw [Graph.settle, Graph.settle, h l List.mem_cons_self,
      ih fun k hk => h k (List.mem_cons_of_mem l hk)]

/-- Layers that come later are asked when no earlier one settles the request. -/
theorem settle_append (v : Layer → Run Fault Verdict) (ls rest : List Layer) :
    (Graph.settle v (ls ++ rest)).outcome = (Graph.settle v ls).outcome >>= fun d =>
      match d.layer with
      | none => (Graph.settle v rest).outcome
      | some _ => .ok d := by
  induction ls with
  | nil => rfl
  | cons l ls ih =>
    rw [List.cons_append]
    cases hv : (v l).outcome with
    | error f =>
      rw [Graph.settle, Graph.settle, Traced.outcome_bind, Traced.outcome_bind, hv]
      rfl
    | ok verdict =>
      cases verdict with
      | allow => rw [settle_allow hv, settle_allow hv]; rfl
      | deny => rw [settle_deny hv, settle_deny hv]; rfl
      | notApplicable => rw [settle_skip hv, settle_skip hv, ih]

/-- A decision names one of the layers, or none. -/
theorem settle_layer {ls : List Layer} {d : Decision} {l : Layer}
    (ho : (Graph.settle v ls).outcome = .ok d) (hl : d.layer = some l) : l ∈ ls := by
  induction ls with
  | nil =>
    obtain rfl := Except.ok.inj ho
    cases hl
  | cons k ls ih =>
    obtain ⟨verdict, hv⟩ := settle_answers ho
    cases verdict with
    | allow =>
      rw [settle_allow hv] at ho
      obtain rfl := Except.ok.inj ho
      obtain rfl := Option.some.inj hl
      exact List.mem_cons_self
    | deny =>
      rw [settle_deny hv] at ho
      obtain rfl := Except.ok.inj ho
      obtain rfl := Option.some.inj hl
      exact List.mem_cons_self
    | notApplicable =>
      rw [settle_skip hv] at ho
      exact List.mem_cons_of_mem k (ih ho)

end

namespace Graph

/-! ## Other organization policies -/

/-- A graph with other organization policies. -/
def under (g : Graph) (guardrails : List Document) : Graph := { g with guardrails }

variable (g : Graph) (gs : List Document) (e : Evaluator) (r : Request)

/-- Only the first layer looks at the organization's policies. -/
theorem under_ownVerdict (p : String) {l : Layer} (hl : l ≠ .organization) :
    (g.under gs).ownVerdict e r p l = g.ownVerdict e r p l := by
  have hdenied (owners : List Json) :
      (g.under gs).deniedToAny e r p owners = g.deniedToAny e r p owners := by
    induction owners with
    | nil => rfl
    | cons owner rest ih =>
      unfold deniedToAny
      rw [ih]
      rfl
  cases l with
  | organization => exact absurd rfl hl
  | denials =>
    unfold ownVerdict
    rw [hdenied]
    rfl
  | _ => rfl

/-- The root of an account is past the first layer. -/
theorem root_ownVerdict {p : String} (hp : Arn.isAccountRoot p = true) :
    g.ownVerdict e r p .organization = pure .notApplicable := by
  unfold ownVerdict
  rw [hp]
  rfl

/-- Policies that block nobody whom the graph's own ones let through take nothing away. -/
theorem follows_under {g : Graph} {gs : List Document} {x : Setting}
    (h : ∀ p, (g.basis x).Lets x p .organization → ((g.under gs).basis x).Lets x p .organization) :
    Follows g x.evaluator x.request (g.under gs) x.evaluator x.request where
  groups _ := rfl
  guards p l _ hthrough hdeny := by
    by_cases hl : l = .organization
    · subst hl
      rcases organization_verdict (g := g) x p with ⟨hlets, -⟩ | ⟨-, hv⟩
      · rcases organization_verdict (g := g.under gs) x p with ⟨-, hv⟩ | ⟨hblocked, -⟩
        · rw [hv] at hdeny
          cases hdeny
        · exact hblocked (h p hlets)
      · rw [hv] at hthrough
        cases hthrough
    · rw [under_ownVerdict g gs _ _ p hl, hthrough] at hdeny
      cases hdeny
  grants p hallow hnone := by
    rw [under_ownVerdict g gs _ _ p (by decide), hallow] at hnone
    cases hnone

/-- Whom the organization blocks is refused. -/
theorem permits_of_blocked {g : Graph} {x : Setting} {p : String}
    (h : ¬ (g.basis x).Lets x p .organization) :
    (g.permits x.evaluator x.request (.str p)).outcome = .ok false := by
  have hall : Layer.all = .organization ::
      [.boundary, .session, .denials, .grants, .groups] := rfl
  rw [permits_outcome, decision_outcome]
  unfold decide
  rcases organization_verdict (g := g) x p with ⟨hlets, -⟩ | ⟨-, hv⟩
  · exact absurd hlets h
  · have hdeny : (g.verdict x.evaluator x.request p .organization).outcome = .ok .deny := hv
    rw [hall, settle_deny hdeny]
    rfl

section

variable {g : Graph} {gs : List Document} {x : Setting} {p : String}
  (hsub : ∀ d ∈ gs, d ∈ g.guardrails)

include hsub

/-- What the organization lets through is denied by no part of its policies. -/
theorem not_deniedBy_of_subset (hp : Arn.isAccountRoot p = false)
    (hlets : (g.basis x).Lets x p .organization) :
    ∀ st ∈ gs.flatMap Document.statements, ¬ x.DeniedBy st := by
  intro st hst
  obtain ⟨d, hd, hin⟩ := List.mem_flatMap.1 hst
  rcases hlets with hroot | hempty | hpasses
  · rw [hroot] at hp
    cases hp
  · have hno : g.guardrails = [] := hempty
    have hmem := hsub d hd
    rw [hno] at hmem
    exact absurd hmem List.not_mem_nil
  · exact hpasses.2 st (List.mem_flatMap.2 ⟨d, hsub d hd, hin⟩)

/-- A part of the organization's policies lets a request through if it allows it too. -/
theorem lets_of_subset
    (hallowed : gs = [] ∨ ∃ st ∈ gs.flatMap Document.statements, x.AllowedBy st)
    (hlets : (g.basis x).Lets x p .organization) :
    ((g.under gs).basis x).Lets x p .organization := by
  cases hp : Arn.isAccountRoot p with
  | true => exact .inl hp
  | false =>
    rcases hallowed with hempty | hsome
    · exact .inr (.inl hempty)
    · exact .inr (.inr ⟨hsome, not_deniedBy_of_subset hsub hp hlets⟩)

end

/-- To the root of an account every layer but that of the groups says the same. -/
theorem under_root {p : String} (hp : Arn.isAccountRoot p = true) :
    (g.under gs).ownVerdict e r p = g.ownVerdict e r p := by
  funext l
  by_cases hl : l = .organization
  · rw [hl, root_ownVerdict _ e r hp, root_ownVerdict _ e r hp]
  · exact under_ownVerdict g gs e r p hl

/-- The decision when only the groups are left to ask. -/
def ofGroups (hit : Bool) : Decision := if hit then ⟨true, some .groups⟩ else .implicit

/-- A decision is that of one's own layers if these settle the request, and else that of the
groups. -/
theorem decide_outcome (p : String) : (g.decide e r p).outcome =
    (settle (g.ownVerdict e r p) Layer.own).outcome >>= fun d =>
      match d.layer with
      | none => (anyPasses (g.grantsGroup e r) (g.groupsOf p)).map ofGroups
      | some _ => .ok d := by
  have hown : settle (g.verdict e r p) Layer.own = settle (g.ownVerdict e r p) Layer.own := by
    refine settle_congr fun l hl => ?_
    cases l with
    | groups => exact absurd hl (by decide)
    | _ => rfl
  have hgroups : (settle (g.verdict e r p) [.groups]).outcome =
      (anyPasses (g.grantsGroup e r) (g.groupsOf p)).map ofGroups := by
    rw [settle, Traced.outcome_bind, groups_outcome]
    cases anyPasses (g.grantsGroup e r) (g.groupsOf p) with
    | error f => rfl
    | ok hit => cases hit <;> rfl
  unfold decide Layer.all
  rw [settle_append, hown, hgroups]

/-- A group that is not granted a request is not granted it under more policies. -/
theorem grantsGroup_under {g : Graph} {x : Setting} {group : Json}
    (h : (g.under []).grantsGroup x.evaluator x.request group = .ok false) :
    g.grantsGroup x.evaluator x.request group = .ok false := by
  have hown : Layer.own = .organization :: [.boundary, .session, .denials, .grants] := rfl
  unfold grantsGroup at h ⊢
  obtain ⟨name, hn, h⟩ := bind_eq_ok h
  obtain ⟨d, hs, hd⟩ := bind_eq_ok h
  have hskip : ((g.under []).ownVerdict x.evaluator x.request name .organization).outcome =
      .ok .notApplicable := by
    unfold ownVerdict
    rw [show (g.under []).guardrails.isEmpty = true from rfl, Bool.or_true]
    rfl
  rw [hown, settle_skip hskip, settle_congr fun l hl =>
    under_ownVerdict g [] x.evaluator x.request name (by rintro rfl; exact absurd hl (by decide))]
    at hs
  rw [hn, ok_bind, hown]
  rcases organization_verdict (g := g) x name with ⟨-, hv⟩ | ⟨-, hv⟩
  · rw [settle_skip hv, hs]
    exact hd
  · rw [settle_deny hv]
    rfl

/-! ## Top theorem -/

/-- **The organization reaches the root of an account through groups only.**  The decision for
the root is the one without the organization's policies, unless that one allows by a group.  Then
the allow stays if there is a group that is granted the request past those policies too, and else
the request is denied for want of a grant. -/
theorem decision_of_root {g : Graph} {x : Setting} {p : String}
    (hp : Arn.isAccountRoot p = true) {d : Decision}
    (ho : ((g.under []).decision x.evaluator x.request (.str p)).outcome = .ok d) :
    (d.layer ≠ some .groups →
      (g.decision x.evaluator x.request (.str p)).outcome = .ok d) ∧
    (d.layer = some .groups →
      (∀ d', (g.decision x.evaluator x.request (.str p)).outcome = .ok d' →
        d' = d ∨ d' = .implicit) ∧
      (g.Textual →
        ((g.basis x).Inherits x p →
          (g.decision x.evaluator x.request (.str p)).outcome = .ok d) ∧
        (¬ (g.basis x).Inherits x p →
          (g.decision x.evaluator x.request (.str p)).outcome = .ok .implicit))) := by
  simp only [decision_outcome] at ho ⊢
  rw [decide_outcome, under_root g [] x.evaluator x.request hp] at ho
  obtain ⟨own, hown, ho⟩ := bind_eq_ok ho
  rw [decide_outcome, hown, ok_bind]
  cases hl : own.layer with
  | some l =>
    rw [hl] at ho
    obtain rfl := Except.ok.inj ho
    exact ⟨fun _ => rfl, fun hgroups => absurd (settle_layer hown hgroups) (by decide)⟩
  | none =>
    rw [hl] at ho
    obtain ⟨hit, hscan, rfl⟩ := map_eq_ok ho
    cases hit with
    | false =>
      -- no group is granted the request, so none is under the organization's policies
      have hnone : anyPasses (g.grantsGroup x.evaluator x.request) (g.groupsOf p) = .ok false :=
        anyPasses_eq_false_iff.2 fun group hgroup =>
          grantsGroup_under (anyPasses_eq_false_iff.1 hscan group hgroup)
      simp only [hnone]
      exact ⟨fun _ => rfl, fun hgroups => by cases hgroups⟩
    | true =>
      refine ⟨fun hne => absurd rfl hne, fun _ => ⟨fun d' hd' => ?_, fun hg => ?_⟩⟩
      · obtain ⟨found, -, rfl⟩ := map_eq_ok hd'
        cases found with
        | true => exact .inl rfl
        | false => exact .inr rfl
      · rcases inherits_splits hg x p with ⟨hi, hfound⟩ | ⟨hi, hfound⟩
        · simp only [hfound]
          exact ⟨fun _ => rfl, fun hn => absurd hi hn⟩
        · simp only [hfound]
          exact ⟨fun h => absurd h hi, fun _ => rfl⟩

/-- The root of an account may write, and is in a group that may do anything; the organization
forbids everything. -/
def rootOfGroup : Graph :=
  let root : Principal := { member with arn := "arn:aws:iam::111122223333:root" }
  let g := { empty with guardrails := [⟨[⟨"Deny", ["*"], ["*"], .null, .null, ""⟩], "", ""⟩] }
  let g := { g with principals := g.principals.insert "arn:aws:iam::111122223333:root" root }
  let g := g.insertEdge "arn:aws:iam::111122223333:root" "write" false ⟨.str "*", .null, ""⟩
  g.insertEdge "staff" "*" false ⟨.str "*", .null, ""⟩

/-- The organization's policies do make a difference to the root of an account. -/
theorem rootOfGroup_decisions :
    let x : Setting := ⟨fun _ _ => .ok true, .empty, "read", "file"⟩
    let root := "arn:aws:iam::111122223333:root"
    Arn.isAccountRoot root = true ∧
      ((rootOfGroup.under []).decision x.evaluator x.request (.str root)).outcome =
        .ok ⟨true, some .groups⟩ ∧
      (rootOfGroup.decision x.evaluator x.request (.str root)).outcome = .ok .implicit :=
  ⟨by decide, rfl, rfl⟩

/-- What the root may do in its own right it may still do; what it has from its group is all that
can be lost. -/
theorem decision_of_root_rootOfGroup :
    let root := "arn:aws:iam::111122223333:root"
    let write : Setting := ⟨fun _ _ => .ok true, .empty, "write", "file"⟩
    let read : Setting := ⟨fun _ _ => .ok true, .empty, "read", "file"⟩
    Arn.isAccountRoot root = true ∧
      ((rootOfGroup.under []).decision write.evaluator write.request (.str root)).outcome =
        .ok ⟨true, some .grants⟩ ∧
      (rootOfGroup.decision write.evaluator write.request (.str root)).outcome =
        .ok ⟨true, some .grants⟩ ∧
      ((rootOfGroup.under []).decision read.evaluator read.request (.str root)).outcome =
        .ok ⟨true, some .groups⟩ ∧
      ∀ d, (rootOfGroup.decision read.evaluator read.request (.str root)).outcome = .ok d →
        d = ⟨true, some .groups⟩ ∨ d = .implicit := by
  refine ⟨by decide, rfl, ?_, rfl, ?_⟩
  · exact (decision_of_root (by decide) rfl).1 (by decide)
  · exact ((decision_of_root (by decide) rfl).2 rfl).1

end Graph
end CloudAccess
