import CloudAccess.Proofs.Condition.Order
import CloudAccess.Proofs.Decision.Comparison
import CloudAccess.Proofs.Paired

/-!
# Graphs with other conditions

`Graph.Recast R` relates two graphs that are the same up to the conditions of their statements and
edges.  A condition of the one is related by `R` to the condition that stands in its place, as one
that belongs to a deny or to something else.  Where related conditions come to the same for
a request (`Judges`), every decision does:

    Judges R e c c' → g.Recast R g' → c.Recast R c' →
      (g'.decision e ⟨action, resource, c'⟩ p).outcome =
        (g.decision e ⟨action, resource, c⟩ p).outcome                     (Recast.decision)

To come to the same is little: for an allow a condition has to be true on both sides or on none,
for a deny it has to be false on both or on none.  So it is with blocks in another order
(`decision_of_reordered`), as far as their order does not matter.
-/

namespace CloudAccess

open Condition (Evaluator)

/-! ## Related conditions -/

section

variable (R : Bool → Json → Json → Prop)

/-- A statement with another condition. -/
structure Statement.Recast (s s' : Statement) : Prop where
  rest : s' = { s with condition := s'.condition }
  condition : R s.isDeny s.condition s'.condition

/-- A document with other conditions. -/
def Document.Recast (d d' : Document) : Prop :=
  List.Forall₂ (Statement.Recast R) d.statements d'.statements

/-- An edge with another condition. -/
structure Edge.Recast (deny : Bool) (e e' : Edge) : Prop where
  rest : e' = { e with conditions := e'.conditions }
  condition : R deny e.conditions e'.conditions

/-- The same edges with other conditions. -/
def EdgeIndex.Recast (deny : Bool) (ix ix' : EdgeIndex) : Prop :=
  ix.Paired (fun _ held held' =>
    held.Paired (fun _ => List.Forall₂ (Edge.Recast R deny)) held') ix'

/-- A principal with other conditions in its permission boundary. -/
structure Principal.Recast (P P' : Principal) : Prop where
  groups : P'.groups = P.groups
  boundary : Option.Rel (Document.Recast R) P.boundary P'.boundary

/-- A graph with other conditions. -/
structure Graph.Recast (g g' : Graph) : Prop where
  principals : g.principals.Paired (fun _ => Principal.Recast R) g'.principals
  allows : g.allows.Recast R false g'.allows
  denies : g.denies.Recast R true g'.denies
  guardrails : List.Forall₂ (Document.Recast R) g.guardrails g'.guardrails

/-- A context with other conditions in the policy of its session. -/
structure Context.Recast (c c' : Context) : Prop where
  rest : c' = { c with session := c'.session }
  session : Option.Rel (Document.Recast R) c.session c'.session

/-- Related conditions come to the same for an allow, and for a deny. -/
def Judges (e : Evaluator) (c c' : Context) : Prop :=
  ∀ deny block block', R deny block block' →
    (e block' c' = .ok (!deny) ↔ e block c = .ok (!deny))

end

section

variable {R : Bool → Json → Json → Prop} {e : Evaluator} {c c' : Context} (h : Judges R e c c')

include h

theorem Judges.surely {block block' : Json} (hR : R false block block') :
    surely (e block' c') = surely (e block c) := by
  rw [Bool.eq_iff_iff, surely_iff, surely_iff]
  exact h false block block' hR

theorem Judges.perhaps {block block' : Json} (hR : R true block block') :
    perhaps (e block' c') = perhaps (e block c) := by
  rw [Bool.eq_iff_iff, perhaps_iff, perhaps_iff]
  exact not_congr (h true block block' hR)

end

/-! ## Scans -/

/-- Scans of paired lists answer the same if their tests do. -/
theorem anyPasses_forall₂ {α β : Type} {test : α → Except Fault Bool}
    {test' : β → Except Fault Bool} {l : List α} {l' : List β}
    (h : List.Forall₂ (fun a b => test' b = test a) l l') :
    anyPasses test' l' = anyPasses test l := by
  induction h with
  | nil => rfl
  | cons hab _ ih => rw [anyPasses, anyPasses, hab, ih]

/-- Layers that say the same lead to the same decision. -/
theorem settle_outcome_congr {v v' : Layer → Run Fault Verdict} {ls : List Layer}
    (h : ∀ l ∈ ls, (v' l).outcome = (v l).outcome) :
    (Graph.settle v' ls).outcome = (Graph.settle v ls).outcome := by
  induction ls with
  | nil => rfl
  | cons l rest ih =>
    obtain ⟨hl, hrest⟩ := List.forall_mem_cons.1 h
    rw [Graph.settle, Graph.settle, Traced.outcome_bind, Traced.outcome_bind, hl]
    cases (v l).outcome with
    | error f => rfl
    | ok verdict =>
      cases verdict with
      | notApplicable => exact ih hrest
      | _ => rfl

section

variable {R : Bool → Json → Json → Prop} {e : Evaluator} {c c' : Context} (h : Judges R e c c')
  {action : String} {resource : Json}

include h

theorem Statement.Recast.allows {s s' : Statement} (hs : s.Recast R s') :
    s'.allows e ⟨action, resource, c'⟩ = s.allows e ⟨action, resource, c⟩ := by
  have heffect : s'.effect = s.effect := by rw [hs.rest]
  have hconcerns : s'.concerns ⟨action, resource, c'⟩ = s.concerns ⟨action, resource, c⟩ := by
    rw [hs.rest]
    rfl
  unfold Statement.allows isAllow
  rw [heffect]
  split
  · next hallow =>
    have hcondition := hs.condition
    simp only [isDeny, of_decide_eq_true hallow] at hcondition
    rw [hconcerns, h.surely hcondition]
  · rfl

theorem Statement.Recast.denies {s s' : Statement} (hs : s.Recast R s') :
    s'.denies e ⟨action, resource, c'⟩ = s.denies e ⟨action, resource, c⟩ := by
  have heffect : s'.effect = s.effect := by rw [hs.rest]
  have hconcerns : s'.concerns ⟨action, resource, c'⟩ = s.concerns ⟨action, resource, c⟩ := by
    rw [hs.rest]
    rfl
  unfold Statement.denies isDeny
  rw [heffect]
  split
  · next hdeny =>
    have hcondition := hs.condition
    simp only [isDeny, hdeny] at hcondition
    rw [hconcerns, h.perhaps hcondition]
  · rfl

/-- A layer that guards says the same with other conditions. -/
theorem Guard.verdict_recast (guard : Guard) {ss ss' : List Statement}
    (hss : List.Forall₂ (Statement.Recast R) ss ss') :
    (guard.verdict e ⟨action, resource, c'⟩ ss').outcome =
      (guard.verdict e ⟨action, resource, c⟩ ss).outcome := by
  rw [verdict_outcome, verdict_outcome,
    anyPasses_forall₂ (hss.imp fun _ _ hs => hs.allows h),
    anyPasses_forall₂ (hss.imp fun _ _ hs => hs.denies h)]

theorem Edge.Recast.allows {edge edge' : Edge} (he : edge.Recast R false edge') :
    edge'.allows e ⟨action, resource, c'⟩ = edge.allows e ⟨action, resource, c⟩ := by
  have hpattern : edge'.pattern = edge.pattern := by rw [he.rest]
  unfold Edge.allows
  rw [hpattern, h.surely he.condition]

theorem Edge.Recast.denies {edge edge' : Edge} (he : edge.Recast R true edge') :
    edge'.denies e ⟨action, resource, c'⟩ = edge.denies e ⟨action, resource, c⟩ := by
  have hpattern : edge'.pattern = edge.pattern := by rw [he.rest]
  unfold Edge.denies
  rw [hpattern, h.perhaps he.condition]

end

/-- The edges that concern a request are paired. -/
theorem EdgeIndex.Recast.concerning {R : Bool → Json → Json → Prop} {deny : Bool}
    {ix ix' : EdgeIndex} (h : ix.Recast R deny ix') (owner : Identifier) (action : String) :
    List.Forall₂ (Edge.Recast R deny) (ix.concerning owner action)
      (ix'.concerning owner action) := by
  have hof : (ix.of owner).Paired (fun _ => List.Forall₂ (Edge.Recast R deny)) (ix'.of owner) := by
    have hget := h.get?_rel owner
    unfold of
    generalize ix.get? owner = held, ix'.get? owner = held' at hget ⊢
    cases hget with
    | none => exact .nil
    | some hheld => exact hheld
  unfold EdgeIndex.concerning
  refine List.rel_flatMap hof ?_
  rintro ⟨pattern, edges⟩ ⟨pattern', edges'⟩ ⟨hpattern, hedges⟩
  obtain rfl : pattern' = pattern := hpattern
  dsimp only
  split
  · exact hedges
  · exact .nil

/-! ## Decisions -/

namespace Graph.Recast

variable {R : Bool → Json → Json → Prop} {g g' : Graph} (hg : g.Recast R g')

include hg

/-- A principal of the one graph has a partner in the other. -/
theorem principal? (p : String) :
    Option.Rel (Principal.Recast R) (g.principal? p) (g'.principal? p) :=
  hg.principals.get?_rel (.text p)

theorem groups (p : String) : g'.groupsOf p = g.groupsOf p := by
  have hP := hg.principal? p
  unfold groupsOf
  generalize g.principal? p = P, g'.principal? p = P' at hP ⊢
  cases hP with
  | none => rfl
  | some hP => exact hP.groups

variable {e : Evaluator} {c c' : Context} (h : Judges R e c c') (hc : c.Recast R c')
  (action : String) (resource : Json)

include h

theorem deniesOwner (owner : Json) : g'.deniesOwner e ⟨action, resource, c'⟩ owner =
    g.deniesOwner e ⟨action, resource, c⟩ owner := by
  unfold Graph.deniesOwner
  refine bind_congr fun id => ?_
  exact anyPasses_forall₂ ((hg.denies.concerning id action).imp fun _ _ he => he.denies h)

include hc

/-- Every layer but that of groups says the same. -/
theorem ownVerdict (p : String) (l : Layer) :
    (g'.ownVerdict e ⟨action, resource, c'⟩ p l).outcome =
      (g.ownVerdict e ⟨action, resource, c⟩ p l).outcome := by
  cases l with
  | organization =>
    simp only [Graph.ownVerdict]
    have hempty : g'.guardrails.isEmpty = g.guardrails.isEmpty := by
      have hpaired := hg.guardrails
      generalize g.guardrails = ds, g'.guardrails = ds' at hpaired ⊢
      cases hpaired <;> rfl
    rw [hempty]
    split
    · rfl
    · exact Guard.verdict_recast h _ (List.rel_flatMap hg.guardrails fun _ _ hd => hd)
  | boundary =>
    have hP := hg.principal? p
    simp only [Graph.ownVerdict]
    generalize g.principal? p = P, g'.principal? p = P' at hP ⊢
    cases hP with
    | none => rfl
    | @some P P' hP =>
      have hboundary := hP.boundary
      simp only [Option.bind_some]
      generalize P.boundary = d, P'.boundary = d' at hboundary ⊢
      cases hboundary with
      | none => rfl
      | some hd => exact Guard.verdict_recast h _ hd
  | session =>
    have hsession := hc.session
    simp only [Graph.ownVerdict]
    generalize c.session = d, c'.session = d' at hsession ⊢
    cases hsession with
    | none => rfl
    | some hd => exact Guard.verdict_recast h _ hd
  | denials =>
    rw [denials_outcome, denials_outcome, hg.groups]
    refine congrArg (Except.map _) (anyPasses_forall₂ (List.forall₂_same.2 fun owner _ => ?_))
    exact hg.deniesOwner h action resource owner
  | grants =>
    rw [grants_outcome, grants_outcome]
    refine congrArg (Except.map _) (anyPasses_forall₂ ?_)
    exact (hg.allows.concerning p action).imp fun _ _ he => he.allows h
  | groups => rfl

theorem grantsGroup (group : Json) : g'.grantsGroup e ⟨action, resource, c'⟩ group =
    g.grantsGroup e ⟨action, resource, c⟩ group := by
  unfold Graph.grantsGroup
  refine bind_congr fun name => ?_
  rw [settle_outcome_congr fun l _ => hg.ownVerdict h hc action resource name l]

theorem verdict (p : String) (l : Layer) :
    (g'.verdict e ⟨action, resource, c'⟩ p l).outcome =
      (g.verdict e ⟨action, resource, c⟩ p l).outcome := by
  cases l with
  | groups =>
    rw [groups_outcome, groups_outcome, hg.groups]
    refine congrArg (Except.map _) (anyPasses_forall₂ (List.forall₂_same.2 fun group _ => ?_))
    exact hg.grantsGroup h hc action resource group
  | organization => exact hg.ownVerdict h hc action resource p .organization
  | boundary => exact hg.ownVerdict h hc action resource p .boundary
  | session => exact hg.ownVerdict h hc action resource p .session
  | denials => exact hg.ownVerdict h hc action resource p .denials
  | grants => exact hg.ownVerdict h hc action resource p .grants

/-- **Conditions that come to the same lead to the same decision.** -/
theorem decision (p : Json) : (g'.decision e ⟨action, resource, c'⟩ p).outcome =
    (g.decision e ⟨action, resource, c⟩ p).outcome := by
  unfold Graph.decision
  simp only [Traced.outcome_bind, Traced.outcome_ofExcept]
  refine bind_congr fun name => ?_
  unfold decide
  rw [settle_outcome_congr fun l _ => hg.verdict h hc action resource name l]

end Graph.Recast

/-! ## Top theorem -/

/-- The same condition, or one in another order that does not matter. -/
def Reordered (c : Context) (deny : Bool) (block block' : Json) : Prop :=
  block' = block ∨ (Condition.Rearranged block block' ∧ Condition.Steady deny c block)

namespace Graph

/-- **The order of conditions does not matter as long as they are steady.**  With operators, keys
and expected values in another order, in statements of any layer, a request is decided as before
if no clause wavers where that is heeded, and no deny has a false clause beside one that cannot be
decided. -/
theorem decision_of_reordered {g g' : Graph} {c c' : Context} (hg : g.Recast (Reordered c) g')
    (hc : c.Recast (Reordered c) c') (action : String) (resource p : Json) :
    (g'.decision Condition.standard ⟨action, resource, c'⟩ p).outcome =
      (g.decision Condition.standard ⟨action, resource, c⟩ p).outcome := by
  have hfacts (key : String) : c'.fact? key = c.fact? key := by
    rw [hc.rest]
    rfl
  refine hg.decision (fun deny block block' hR => ?_) hc action resource p
  rw [Condition.standard_congr hfacts]
  rcases hR with rfl | ⟨hrearranged, hsteady⟩
  · exact .rfl
  · exact Condition.standard_rearranged hrearranged hsteady

/-- Everything is allowed to a member under one condition, and denied under another one. -/
def conditioned (allowIf denyIf : Json) : Graph :=
  (empty.insertEdge "member" "*" false ⟨.str "*", allowIf, ""⟩).insertEdge "member" "*" true
    ⟨.str "*", denyIf, ""⟩

theorem conditioned_recast {R : Bool → Json → Json → Prop} {allowIf allowIf' denyIf denyIf' : Json}
    (hallow : R false allowIf allowIf') (hdeny : R true denyIf denyIf') :
    (conditioned allowIf denyIf).Recast R (conditioned allowIf' denyIf') where
  principals := .nil
  allows := .cons ⟨rfl, .cons ⟨rfl, .cons ⟨rfl, hallow⟩ .nil⟩ .nil⟩ .nil
  denies := .cons ⟨rfl, .cons ⟨rfl, .cons ⟨rfl, hdeny⟩ .nil⟩ .nil⟩ .nil
  guardrails := .nil

/-- Two expected values of an operator in the other order. -/
theorem sameClauses_pair {operator : String} (h : Condition.readsFirst operator = false)
    (key : String) (v w : Json) :
    Condition.SameClauses operator (.obj [(key, .arr [v, w])]) (.obj [(key, .arr [w, v])]) := by
  have hvalues : Condition.SameValues operator (.arr [v, w]) (.arr [w, v]) := by
    refine .inr ⟨_, _, rfl, rfl, .swap w v [], fun hfirst => ?_⟩
    rw [h] at hfirst
    cases hfirst
  exact .inr ⟨_, _, rfl, rfl, _, .refl _, .cons ⟨rfl, hvalues⟩ .nil⟩

/-- Requests from some addresses are denied to those outside an organization. -/
theorem decision_of_reordered_conditioned :
    let addresses (patterns : List Json) : String × Json :=
      ("StringLike", .obj [("aws:SourceIp", .arr patterns)])
    let outside : String × Json := ("StringNotEquals", .obj [("aws:PrincipalOrgID", .str "o-1")])
    let block : Json := .obj [addresses [.str "10.*", .str "192.*"], outside]
    let block' : Json := .obj [outside, addresses [.str "192.*", .str "10.*"]]
    let c : Context := { Context.empty with sourceIp := some "10.1.2.3" }
    let r : Request := ⟨"read", .str "file", c⟩
    (conditioned .null block).Recast (Reordered c) (conditioned .null block') ∧
      c.Recast (Reordered c) c ∧
      ((conditioned .null block).decision Condition.standard r (.str "member")).outcome =
        .ok ⟨false, some .denials⟩ ∧
      ((conditioned .null block').decision Condition.standard r (.str "member")).outcome =
        .ok ⟨false, some .denials⟩ := by
  intro addresses outside block block' c r
  have hrearranged : Condition.Rearranged block block' :=
    ⟨_, _, rfl, rfl, _, .swap _ _ [],
      .cons ⟨rfl, .inl rfl⟩ (.cons ⟨rfl, sameClauses_pair (by decide) _ _ _⟩ .nil)⟩
  have hsteady : Condition.Steady true c block := by
    refine ⟨by decide, fun _ _ k hk => ?_⟩
    rcases List.mem_cons.1 hk with rfl | hk
    · exact ⟨rfl, true, rfl⟩
    · obtain rfl := List.mem_singleton.1 hk
      exact ⟨rfl, true, rfl⟩
  have hg : (conditioned .null block).Recast (Reordered c) (conditioned .null block') :=
    conditioned_recast (.inl rfl) (.inr ⟨hrearranged, hsteady⟩)
  have hc : c.Recast (Reordered c) c := ⟨rfl, .none⟩
  have hdenied : ((conditioned .null block).decision Condition.standard r (.str "member")).outcome =
      .ok ⟨false, some .denials⟩ := by rfl
  exact ⟨hg, hc, hdenied,
    (decision_of_reordered hg hc "read" (.str "file") (.str "member")).trans hdenied⟩

/-- Without a second factor an operator that is not known denies a request, unless it comes after
the one that asks for the factor; and a value that is no truth value takes an allow away, unless it
comes after the one that is met.  Of the values of `Null` only the first one counts. -/
theorem order_of_conditions_matters :
    let factor (expected : Json) : String × Json :=
      ("Bool", .obj [("aws:MultiFactorAuthPresent", expected)])
    let known : String × Json := factor (.str "true")
    let fancy : String × Json := ("StringFancyMatch", .obj [("aws:SourceIp", .str "x")])
    let without (values : List Json) : Json := .obj [factor (.arr values)]
    let absent (values : List Json) : Json := .obj [("Null", .obj [("aws:SourceIp", .arr values)])]
    let R (_ : Bool) (b b' : Json) : Prop := b' = b ∨ Condition.Rearranged b b'
    let asked (g : Graph) := (g.permits Condition.standard ⟨"read", .str "file", .empty⟩
      (.str "member")).outcome
    let g₁ := conditioned .null (.obj [known, fancy])
    let g₁' := conditioned .null (.obj [fancy, known])
    let g₂ := conditioned (without [.str "false", .str "maybe"]) (.obj [known])
    let g₂' := conditioned (without [.str "maybe", .str "false"]) (.obj [known])
    let g₃ := conditioned (absent [.str "true", .str "false"]) (.obj [known])
    let g₃' := conditioned (absent [.str "false", .str "true"]) (.obj [known])
    (g₁.Recast R g₁' ∧ asked g₁ = .ok true ∧ asked g₁' = .ok false) ∧
      (g₂.Recast R g₂' ∧ asked g₂ = .ok true ∧ asked g₂' = .ok false) ∧
      (asked g₃ = .ok true ∧ asked g₃' = .ok false) := by
  intro factor known fancy without absent R asked g₁ g₁' g₂ g₂' g₃ g₃'
  have hoperators : Condition.Rearranged (.obj [known, fancy]) (.obj [fancy, known]) :=
    ⟨_, _, rfl, rfl, .of_perm (fun _ _ => .inl rfl) (.swap fancy known [])⟩
  have hvalues : Condition.Rearranged (without [.str "false", .str "maybe"])
      (without [.str "maybe", .str "false"]) :=
    ⟨_, _, rfl, rfl, _, .refl _, .cons ⟨rfl, sameClauses_pair (by decide) _ _ _⟩ .nil⟩
  exact ⟨⟨conditioned_recast (.inl rfl) (.inr hoperators), rfl, rfl⟩,
    ⟨conditioned_recast (.inr hvalues) (.inl rfl), rfl, rfl⟩, rfl, rfl⟩

end Graph

end CloudAccess
