import CloudAccess.Proofs.Graph.Compilation

/-!
# A policy on its own

A policy can be consulted in two ways.  As the policy of a principal it is compiled to edges,
which are looked up under action patterns, denies before allows.  As a policy that guards, its
statements are gone through as they stand, allows before denies.  Where nothing else bears on the
principal's requests the two agree:

    (g.permits …).outcome = .ok b,  (guard.verdict …).outcome = .ok (if b then .notApplicable
      else .deny)                                                     (permits_iff_guard_passes)

for a document whose effects are all known ones.  A statement with another effect would grant
when compiled and is passed over by a guard.
-/

namespace CloudAccess.Graph

open Condition (Evaluator)

/-! ## Definitions -/

/-- The edges of a principal are those that compiling a policy gives it; what edges others have
does not matter. -/
def HasOnly (g : Graph) (p : String) (d : Document) : Prop :=
  ∀ deny a e, g.Holds deny p a e ↔ (empty.addIdentityPolicy p d).1.Holds deny p a e

/-- No policy of the organization, no boundary and no group bears on a principal's requests. -/
structure Unguarded (g : Graph) (p : String) : Prop where
  guardrails : g.guardrails = []
  boundary : (g.principal? p).bind Principal.boundary = none
  groups : g.groupsOf p = []

/-! ## The edges of one policy -/

theorem holds_addIdentityPolicy (g : Graph) (p : String) (d : Document) (deny : Bool) (a : String)
    (e : Edge) :
    (g.addIdentityPolicy p d).1.Holds deny p a e ↔ g.Holds deny p a e ∨
      ∃ s ∈ d.statements, Statement.Makes s (s.resources.map .str) deny a e := by
  rw [addIdentityPolicy_fst]
  refine (foldl_adds (P := fun g : Graph => g.Holds deny p a e)
    (fun g s => holds_addStatement g p p s (s.resources.map .str) deny a e) _ _).trans ?_
  simp

/-- Compiling a policy for a principal that has no edges yet gives it the edges of that policy
only. -/
theorem hasOnly_addIdentityPolicy {g : Graph} {p : String}
    (hnone : ∀ deny a e, ¬ g.Holds deny p a e) (d : Document) :
    (g.addIdentityPolicy p d).1.HasOnly p d := by
  intro deny a e
  rw [holds_addIdentityPolicy, holds_addIdentityPolicy]
  have hempty : ¬ empty.Holds deny p a e := not_holds_empty [] deny p a e
  simp [hnone, hempty]

namespace HasOnly

variable {g : Graph} {p : String} {d : Document} (h : g.HasOnly p d)

include h

theorem holds_iff (deny : Bool) (a : String) (e : Edge) : g.Holds deny p a e ↔
    ∃ s ∈ d.statements, Statement.Makes s (s.resources.map .str) deny a e := by
  rw [h deny a e, holds_addIdentityPolicy]
  exact or_iff_right (not_holds_empty [] deny p a e)

theorem patterns (deny : Bool) (a : String) (e : Edge) (he : g.Holds deny p a e) :
    ∃ q, e.pattern = .str q := by
  obtain ⟨s, -, -, -, q, hq, rfl⟩ := (h.holds_iff deny a e).1 he
  obtain ⟨q, -, rfl⟩ := List.mem_map.1 hq
  exact ⟨q, rfl⟩

/-- Some edge applies exactly when some statement does. -/
theorem applies_iff (x : Setting) (deny : Bool) (Q : Except String Bool → Prop) :
    (∃ a e, g.Holds deny p a e ∧ x.Meets a e ∧ Q (x.answer e.conditions)) ↔
      ∃ s ∈ d.statements, deny = s.isDeny ∧ x.Matches s.actions s.resources ∧
        Q (x.answer s.condition) := by
  constructor
  · rintro ⟨a, e, he, hm, hq⟩
    obtain ⟨s, hs, hmakes⟩ := (h.holds_iff deny a e).1 he
    exact ⟨s, hs, (meets_makes x s s.resources deny Q).1 ⟨a, e, hmakes, hm, hq⟩⟩
  · rintro ⟨s, hs, hfacts⟩
    obtain ⟨a, e, hmakes, hm, hq⟩ := (meets_makes x s s.resources deny Q).2 hfacts
    exact ⟨a, e, (h.holds_iff deny a e).2 ⟨s, hs, hmakes⟩, hm, hq⟩

/-- A deny edge applies exactly when a statement denies. -/
theorem denies_iff (x : Setting) :
    (∃ a e, g.Holds true p a e ∧ x.Meets a e ∧ perhaps (x.answer e.conditions) = true) ↔
      ∃ s ∈ d.statements, x.DeniedBy s := by
  refine (h.applies_iff x true (perhaps · = true)).trans ?_
  simp only [perhaps_iff, Setting.DeniedBy, Statement.isDeny, eq_comm (a := true),
    decide_eq_true_iff]

/-- An allow edge applies exactly when a statement allows. -/
theorem allows_iff (heffects : ∀ s ∈ d.statements, s.effect = "Allow" ∨ s.effect = "Deny")
    (x : Setting) :
    (∃ a e, g.Holds false p a e ∧ x.Meets a e ∧ surely (x.answer e.conditions) = true) ↔
      ∃ s ∈ d.statements, x.AllowedBy s := by
  refine (h.applies_iff x false (surely · = true)).trans ?_
  refine exists_congr fun s => and_congr_right fun hs => ?_
  have hallow : false = s.isDeny ↔ s.effect = "Allow" := by
    unfold Statement.isDeny
    rcases heffects s hs with he | he <;> simp [he]
  rw [hallow, surely_iff]
  rfl

end HasOnly

/-! ## The layers -/

section

variable {g : Graph} {p : String} {d : Document} (x : Setting)

/-- Only the principal's own deny edges guard. -/
theorem Unguarded.guard_verdict (halone : g.Unguarded p) (honly : g.HasOnly p d)
    (hsession : x.context.session = none) {l : Layer} (hl : l ∈ Layer.guards) :
    Splits (g.verdict x.evaluator x.request p l).outcome
      (l = .denials → ∀ s ∈ d.statements, ¬ x.DeniedBy s) .notApplicable .deny := by
  cases l with
  | organization =>
    refine .inl ⟨fun hl => absurd hl (by decide), ?_⟩
    simp only [Graph.verdict, ownVerdict, halone.guardrails]
    rw [if_pos (by simp)]
    rfl
  | boundary =>
    refine .inl ⟨fun hl => absurd hl (by decide), ?_⟩
    simp only [Graph.verdict, ownVerdict, halone.boundary]
    rfl
  | session =>
    refine .inl ⟨fun hl => absurd hl (by decide), ?_⟩
    have hrequest : x.request.context.session = none := hsession
    simp only [Graph.verdict, ownVerdict, hrequest]
    rfl
  | denials =>
    have hdenies : Splits (g.deniesOwner x.evaluator x.request (.str p))
        (∃ s ∈ d.statements, x.DeniedBy s) true false := by
      unfold deniesOwner
      rw [Identifier.ofJson_str, ok_bind]
      exact (edges_splits x true p perhaps (honly.patterns true)).congr (honly.denies_iff x)
    show Splits (g.deniedToAny x.evaluator x.request p (.str p :: g.groupsOf p) >>= _).outcome _ _ _
    rw [Traced.outcome_bind, deniedToAny_outcome, halone.groups, anyPasses]
    rcases hdenies with ⟨hd, ho⟩ | ⟨hd, ho⟩
    · rw [ho]
      refine .inr ⟨fun h => ?_, rfl⟩
      obtain ⟨s, hs, hds⟩ := hd
      exact h rfl s hs hds
    · rw [ho]
      exact .inl ⟨fun _ s hs hds => hd ⟨s, hs, hds⟩, rfl⟩
  | grants => exact absurd hl (by decide)
  | groups => exact absurd hl (by decide)

/-- The layer of grants allows what a statement of the policy allows. -/
theorem HasOnly.grants_verdict (honly : g.HasOnly p d)
    (heffects : ∀ s ∈ d.statements, s.effect = "Allow" ∨ s.effect = "Deny") :
    Splits (g.verdict x.evaluator x.request p .grants).outcome (∃ s ∈ d.statements, x.AllowedBy s)
      .allow .notApplicable := by
  show Splits (allowedBy x.evaluator x.request p (g.allows.concerning p x.action) >>= _).outcome
    _ _ _
  rw [Traced.outcome_bind, allowedBy_outcome]
  exact Splits.bind ((edges_splits x false p surely (honly.patterns false)).congr
    (honly.allows_iff heffects x)) rfl rfl

/-- A principal without groups is granted nothing through them. -/
theorem Unguarded.groups_verdict (halone : g.Unguarded p) :
    (g.verdict x.evaluator x.request p .groups).outcome = .ok .notApplicable := by
  show (g.grantedToAny x.evaluator x.request p (g.groupsOf p) >>= _).outcome = _
  rw [halone.groups]
  rfl

/-- The principal is permitted what the statements of its policy let through. -/
theorem HasOnly.permits_splits (honly : g.HasOnly p d) (halone : g.Unguarded p)
    (hsession : x.context.session = none)
    (heffects : ∀ s ∈ d.statements, s.effect = "Allow" ∨ s.effect = "Deny") :
    Splits (g.permits x.evaluator x.request (.str p)).outcome (x.Passes d.statements)
      true false := by
  rw [permits_outcome, decision_outcome]
  show Splits ((settle (g.verdict x.evaluator x.request p)
    (Layer.guards ++ [.grants, .groups])).outcome.map Decision.allowed) _ _ _
  rcases settle_guards Layer.guards [.grants, .groups]
    (fun l hl => halone.guard_verdict x honly hsession hl) with
    ⟨hclear, hs⟩ | ⟨before, l, after, -, -, hblocked, hs⟩
  · -- no statement denies, so the grants settle the request
    have hdenies : ∀ s ∈ d.statements, ¬ x.DeniedBy s := hclear .denials (by decide) rfl
    rw [hs]
    rcases honly.grants_verdict x heffects with ⟨ha, ho⟩ | ⟨ha, ho⟩
    · rw [settle_allow ho]
      exact .inl ⟨⟨ha, hdenies⟩, rfl⟩
    · rw [settle_skip ho, settle_skip (halone.groups_verdict x)]
      exact .inr ⟨fun h => ha h.1, rfl⟩
  · rw [hs]
    exact .inr ⟨fun h => hblocked fun _ => h.2, rfl⟩

end

/-! ## Top theorem -/

/-- **One policy, two ways to consult it.**  A principal that has the edges of one policy and
nothing else is permitted a request exactly when the policy, consulted as one that guards, lets the
request through.  Both ways give an answer to every request. -/
theorem permits_iff_guard_passes {g : Graph} {p : String} {d : Document} (x : Setting)
    (guard : Guard) (heffects : ∀ s ∈ d.statements, s.effect = "Allow" ∨ s.effect = "Deny")
    (honly : g.HasOnly p d) (halone : g.Unguarded p) (hsession : x.context.session = none) :
    ∃ allowed : Bool, (g.permits x.evaluator x.request (.str p)).outcome = .ok allowed ∧
      (guard.verdict x.evaluator x.request d.statements).outcome =
        .ok (if allowed then .notApplicable else .deny) := by
  rcases honly.permits_splits x halone hsession heffects with ⟨hpasses, ho⟩ | ⟨hpasses, ho⟩
  · rcases x.guard_verdict guard d.statements with ⟨-, hv⟩ | ⟨hnot, -⟩
    · exact ⟨true, ho, hv⟩
    · exact absurd hpasses hnot
  · rcases x.guard_verdict guard d.statements with ⟨hp, -⟩ | ⟨-, hv⟩
    · exact absurd hp hpasses
    · exact ⟨false, ho, hv⟩

/-- Allows to read, with patterns that overlap, and denies under a condition that fails. -/
def readerPolicy : Document where
  statements := [
    ⟨"Allow", ["read", "read", "re*"], ["*", "file"], .null, .null, ""⟩,
    ⟨"Deny", ["re*"], ["secret*"], .null, .str "undecided", ""⟩,
    ⟨"Allow", ["write"], [], .null, .null, ""⟩]
  version := ""
  id := ""

/-- A graph in which others, the staff, are denied everything. -/
def staffDenied : Graph := empty.insertEdge "staff" "*" true ⟨.str "*", .null, ""⟩

/-- The reader may read a file but no secret, and a guard with its policy says the same. -/
theorem permits_iff_guard_passes_reader :
    let g := (staffDenied.addIdentityPolicy "reader" readerPolicy).1
    let evaluator : Evaluator := fun c _ =>
      match c with
      | .null => .ok true
      | _ => .error "undecided"
    let file : Setting := ⟨evaluator, .empty, "read", "file"⟩
    let secret : Setting := ⟨evaluator, .empty, "read", "secret/key"⟩
    (g.HasOnly "reader" readerPolicy ∧ g.Unguarded "reader") ∧
      ((g.permits evaluator file.request (.str "reader")).outcome = .ok true ∧
        (Guard.session.verdict evaluator file.request readerPolicy.statements).outcome =
          .ok .notApplicable) ∧
      (g.permits evaluator secret.request (.str "reader")).outcome = .ok false ∧
        (Guard.session.verdict evaluator secret.request readerPolicy.statements).outcome =
          .ok .deny := by
  intro g evaluator file secret
  have honly : g.HasOnly "reader" readerPolicy := by
    refine hasOnly_addIdentityPolicy (fun deny a e => ?_) readerPolicy
    have hempty : ¬ empty.Holds deny "reader" a e := not_holds_empty [] deny _ a e
    simp [staffDenied, holds_insertEdge, hempty]
  have halone : g.Unguarded "reader" := ⟨rfl, rfl, rfl⟩
  have heffects : ∀ s ∈ readerPolicy.statements, s.effect = "Allow" ∨ s.effect = "Deny" := by
    decide
  obtain ⟨b, hb, hfile⟩ := permits_iff_guard_passes file .session heffects honly halone rfl
  obtain ⟨c, hc, hsecret⟩ := permits_iff_guard_passes secret .session heffects honly halone rfl
  have hread : (g.permits evaluator file.request (.str "reader")).outcome = .ok true := by cbv
  have hrefused : (g.permits evaluator secret.request (.str "reader")).outcome = .ok false := by
    cbv
  obtain rfl := Except.ok.inj (hread.symm.trans hb)
  obtain rfl := Except.ok.inj (hrefused.symm.trans hc)
  exact ⟨⟨honly, halone⟩, ⟨hread, hfile⟩, hrefused, hsecret⟩

end CloudAccess.Graph
