import CloudAccess.Proofs.Graph.Compilation

/-!
# What a step leaves alone

Every step that adds to a graph writes to few of its parts:

* a policy of a principal to the edges (`OnlyEdges`);
* a policy of a resource to the edges, and it may add the principal that stands for everyone
  (`OnlyGrants`);
* a trust policy to the trust (`addTrustOf_eq`).

So the recorded resources are those that were recorded one by one (`resources_of_ofSnapshot`).
-/

namespace CloudAccess.Graph

/-! ## Edges -/

/-- A graph is another one except for its edges. -/
def OnlyEdges (g g' : Graph) : Prop := ∃ allows denies, g' = { g with allows, denies }

namespace OnlyEdges

variable {g g' g'' : Graph}

theorem refl (g : Graph) : g.OnlyEdges g := ⟨_, _, rfl⟩

theorem trans (h : g.OnlyEdges g') (h' : g'.OnlyEdges g'') : g.OnlyEdges g'' := by
  obtain ⟨_, _, rfl⟩ := h
  obtain ⟨_, _, rfl⟩ := h'
  exact ⟨_, _, rfl⟩

theorem foldl {β : Type} {step : Graph → β → Graph} (h : ∀ g b, OnlyEdges g (step g b))
    (bs : List β) (g : Graph) : g.OnlyEdges (bs.foldl step g) :=
  foldl_related refl trans (fun g b _ => h g b) g

theorem insertEdge (g : Graph) (owner : Identifier) (action : String) (deny : Bool) (e : Edge) :
    g.OnlyEdges (g.insertEdge owner action deny e) := by
  cases deny <;> exact ⟨_, _, rfl⟩

theorem addStatement (g : Graph) (owner : Identifier) (s : Statement) (patterns : List Json) :
    g.OnlyEdges (g.addStatement owner s patterns) :=
  foldl (fun g action => foldl (fun g p => insertEdge g owner action s.isDeny (edgeOf s p)) _ g) _ g

theorem grant (g : Graph) (s : Statement) (patterns : List Json) :
    g.OnlyEdges (g.grant s patterns) :=
  foldl (fun g owner => addStatement g (.text owner) s patterns) _ g

theorem addIdentityPolicy (g : Graph) (owner : Identifier) (d : Document) :
    g.OnlyEdges (g.addIdentityPolicy owner d).1 := by
  rw [addIdentityPolicy_fst]
  exact foldl (fun g s => addStatement g owner s (s.resources.map .str)) _ g

theorem addIdentityPolicies (g : Graph) (owner : Identifier) (ds : List Document) :
    g.OnlyEdges (g.addIdentityPolicies owner ds).1 := by
  rw [addIdentityPolicies_fst]
  exact foldl (fun g d => addIdentityPolicy g owner d) _ g

variable (h : g.OnlyEdges g')

include h

theorem principals : g'.principals = g.principals := by
  obtain ⟨_, _, rfl⟩ := h
  rfl

theorem resources : g'.resources = g.resources := by
  obtain ⟨_, _, rfl⟩ := h
  rfl

theorem guardrails : g'.guardrails = g.guardrails := by
  obtain ⟨_, _, rfl⟩ := h
  rfl

theorem trust : g'.trust = g.trust := by
  obtain ⟨_, _, rfl⟩ := h
  rfl

end OnlyEdges

/-! ## Policies of resources -/

/-- What the steps of one statement keep, those of a whole policy keep. -/
theorem addResourceStatements_keeps {kept : Graph → Prop}
    (step : ∀ g s patterns, kept g → kept ((g.ensureEveryone s).1.grant s patterns))
    (resource : Json) (ss : List Statement) {g : Graph} (h : kept g) :
    kept (addResourceStatements resource ss g).1 := by
  induction ss generalizing g with
  | nil => exact h
  | cons s rest ih =>
    unfold addResourceStatements
    cases confineTo resource s.resources with
    | mk outcome dropped =>
      cases outcome with
      | error f => exact h
      | ok patterns => exact ih (step g s patterns h)

/-- A graph is another one except for its edges and the principal that stands for everyone, which
was added if it was not there. -/
structure OnlyGrants (g g' : Graph) : Prop where
  principals : g'.principals = g.principals ∨ g.principal? Arn.anyone = none ∧
    g'.principals = g.principals.insert Arn.anyone Principal.everyone
  resources : g'.resources = g.resources
  trust : g'.trust = g.trust

namespace OnlyGrants

variable {g g' g'' : Graph}

theorem refl (g : Graph) : g.OnlyGrants g := ⟨.inl rfl, rfl, rfl⟩

theorem of_edges (h : g.OnlyEdges g') : g.OnlyGrants g' :=
  ⟨.inl h.principals, h.resources, h.trust⟩

theorem trans (h : g.OnlyGrants g') (h' : g'.OnlyGrants g'') : g.OnlyGrants g'' where
  principals := by
    rcases h.principals with hp | ⟨hnone, hp⟩
    · rcases h'.principals with hp' | ⟨hnone', hp'⟩
      · exact .inl (hp'.trans hp)
      · refine .inr ⟨?_, ?_⟩
        · rwa [principal?, hp] at hnone'
        · rw [hp', hp]
    · rcases h'.principals with hp' | ⟨hnone', -⟩
      · exact .inr ⟨hnone, hp'.trans hp⟩
      · -- everyone is there by now
        rw [principal?, hp, OrderedMap.get?_insert_self] at hnone'
        cases hnone'
  resources := h'.resources.trans h.resources
  trust := h'.trust.trans h.trust

theorem ensureEveryone (g : Graph) (s : Statement) : g.OnlyGrants (g.ensureEveryone s).1 := by
  unfold Graph.ensureEveryone
  split
  · next h =>
    rw [Bool.and_eq_true, Option.isNone_iff_eq_none] at h
    exact ⟨.inr ⟨h.2, rfl⟩, rfl, rfl⟩
  · exact refl g

theorem addResourceStatements (resource : Json) (ss : List Statement) (g : Graph) :
    g.OnlyGrants (addResourceStatements resource ss g).1 := by
  refine addResourceStatements_keeps (fun k s patterns h => ?_) resource ss (refl g)
  have hgrant := OnlyEdges.grant (k.ensureEveryone s).1 s patterns
  exact (h.trans (ensureEveryone k s)).trans (of_edges hgrant)

/-- Everyone, once there, stays. -/
theorem everyone (h : g.OnlyGrants g') (hsome : (g.principal? Arn.anyone).isSome) :
    (g'.principal? Arn.anyone).isSome := by
  rcases h.principals with hp | ⟨hnone, -⟩
  · rwa [principal?, hp]
  · rw [hnone] at hsome
    cases hsome

end OnlyGrants

/-! ## Recorded resources -/

theorem addPrincipal_resources {g g' : Graph} {P : Principal}
    (ho : (g.addPrincipal P).outcome = .ok g') : g'.resources = g.resources := by
  rw [addPrincipal_outcome] at ho
  obtain ⟨id, -, rfl⟩ := map_eq_ok ho
  let recorded : Graph := { g with principals := g.principals.insert id P }
  obtain ⟨trust, ht⟩ := addTrustOf_eq (recorded.addIdentityPolicies id P.policies).1 id P
  rw [ht]
  exact (OnlyEdges.addIdentityPolicies recorded id P.policies).resources

theorem addResource_resources {g g' : Graph} {R : Resource}
    (ho : (g.addResource R).outcome = .ok g') : ∃ id, g'.resources = g.resources.insert id R := by
  rw [addResource_outcome] at ho
  obtain ⟨id, -, ho⟩ := bind_eq_ok ho
  obtain ⟨n, -, rfl⟩ := map_eq_ok ho
  exact ⟨id, (OnlyGrants.addResourceStatements R.arn R.statements _).resources⟩

/-- The resources of a graph are among those of the snapshot. -/
theorem resources_of_ofSnapshot {s : Snapshot} {g : Graph} (ho : (ofSnapshot s).outcome = .ok g) :
    ∀ R ∈ g.resources.values, R ∈ s.resources := by
  obtain ⟨g₁, hp, hr⟩ := ofSnapshot_ok ho
  have hnone : g₁.resources = .empty :=
    foldlM_preserves (P := fun g => g.resources = .empty)
      (fun _ _ _ _ h ho => (addPrincipal_resources ho).trans h) rfl hp
  have h₁ : ∀ R ∈ g₁.resources.values, R ∈ s.resources := by
    rw [hnone]
    exact fun _ hR => absurd hR List.not_mem_nil
  refine foldlM_preserves (P := fun g => ∀ R ∈ g.resources.values, R ∈ s.resources)
    (fun g g' R hR h ho R' hR' => ?_) h₁ hr
  obtain ⟨id, hinsert⟩ := addResource_resources ho
  rw [hinsert] at hR'
  rcases OrderedMap.mem_values_insert hR' with rfl | hR'
  · exact hR
  · exact h R' hR'

end CloudAccess.Graph
