import CloudAccess.Proofs.Condition.Order
import CloudAccess.Proofs.Decision.Guardrails
import CloudAccess.Proofs.Paired

/-!
# Policies that guard only narrow

The organization's policies, permission boundaries and the policy of a session can only take
access away.  `Graph.Relaxes` drops the organization's policies and the boundaries of some
principals, or some of these, and `Context.Relaxes` the session's policy:

    g.Relaxes g' → c.Relaxes c' → (g.permits … c).outcome = .ok true →
      (g'.permits … c').outcome ≠ .ok false                           (permits_of_relaxed)

Conditions do not see a difference, since they ask a context for its facts only.  So each layer
says what it said, or nothing any more (`ownVerdict_relaxed`).

What none of the edges is about is denied, whatever the policies say that guard.
-/

namespace CloudAccess

/-! ## Dropping policies -/

/-- The same context, or the one without the session's policy. -/
def Context.Relaxes (c c' : Context) : Prop := c' = c ∨ c' = { c with session := none }

/-- The same principal, or the one without its boundary. -/
def Principal.Relaxes (P P' : Principal) : Prop := P' = P ∨ P' = { P with boundary := none }

/-- The same graph, except that the organization's policies may be gone, and the boundaries of
some principals. -/
structure Graph.Relaxes (g g' : Graph) : Prop where
  guardrails : g'.guardrails = g.guardrails ∨ g'.guardrails = []
  principals : g.principals.Paired (fun _ => Principal.Relaxes) g'.principals
  rest : g' = { g with principals := g'.principals, guardrails := g'.guardrails }

/-! ## What stays -/

section

variable {P P' : Principal} (h : P.Relaxes P')

include h

theorem Principal.Relaxes.arn : P'.arn = P.arn := by
  rcases h with rfl | rfl <;> rfl

theorem Principal.Relaxes.groups : P'.groups = P.groups := by
  rcases h with rfl | rfl <;> rfl

theorem Principal.Relaxes.boundary : P'.boundary = P.boundary ∨ P'.boundary = none := by
  rcases h with rfl | rfl
  · exact .inl rfl
  · exact .inr rfl

end

namespace Context.Relaxes

variable {c c' : Context} (h : c.Relaxes c')

include h

theorem session : c'.session = c.session ∨ c'.session = none := by
  rcases h with rfl | rfl
  · exact .inl rfl
  · exact .inr rfl

/-- A condition is decided as before. -/
theorem standard (block : Json) : Condition.standard block c' = Condition.standard block c := by
  refine Condition.standard_congr (fun key => ?_) block
  rcases h with rfl | rfl <;> rfl

variable (action : String) (resource : Json)

theorem allows (s : Statement) : s.allows Condition.standard ⟨action, resource, c'⟩ =
    s.allows Condition.standard ⟨action, resource, c⟩ := by
  unfold Statement.allows
  rw [h.standard]
  rfl

theorem denies (s : Statement) : s.denies Condition.standard ⟨action, resource, c'⟩ =
    s.denies Condition.standard ⟨action, resource, c⟩ := by
  unfold Statement.denies
  rw [h.standard]
  rfl

theorem edge_allows (e : Edge) : e.allows Condition.standard ⟨action, resource, c'⟩ =
    e.allows Condition.standard ⟨action, resource, c⟩ := by
  unfold Edge.allows
  rw [h.standard]

theorem edge_denies (e : Edge) : e.denies Condition.standard ⟨action, resource, c'⟩ =
    e.denies Condition.standard ⟨action, resource, c⟩ := by
  unfold Edge.denies
  rw [h.standard]

/-- A guarding layer says of its statements what it said. -/
theorem guard_verdict (guard : Guard) (ss : List Statement) :
    (guard.verdict Condition.standard ⟨action, resource, c'⟩ ss).outcome =
      (guard.verdict Condition.standard ⟨action, resource, c⟩ ss).outcome := by
  rw [Guard.verdict_outcome, Guard.verdict_outcome, funext (h.allows action resource),
    funext (h.denies action resource)]

/-- A layer whose policy may be gone says what it said, or nothing. -/
theorem guard_optional (guard : Guard) {o o' : Option Document} (ho : o' = o ∨ o' = none) :
    let verdict (c : Context) (o : Option Document) : Run Fault Verdict :=
      match o with
      | none => pure .notApplicable
      | some d => guard.verdict Condition.standard ⟨action, resource, c⟩ d.statements
    (verdict c' o').outcome = (verdict c o).outcome ∨
      (verdict c' o').outcome = .ok .notApplicable := by
  intro verdict
  rcases ho with rfl | rfl
  · cases o' with
    | none => exact .inr rfl
    | some d => exact .inl (h.guard_verdict action resource guard d.statements)
  · exact .inr rfl

end Context.Relaxes

namespace Graph

namespace Relaxes

variable {g g' : Graph} (h : g.Relaxes g')

include h

/-- A principal that is looked up is there as before, with its boundary or without. -/
theorem principal? (p : String) :
    Option.Rel Principal.Relaxes (g.principal? p) (g'.principal? p) :=
  h.principals.get?_rel (.text p)

theorem groups (p : String) : g'.groupsOf p = g.groupsOf p := by
  have hP := h.principal? p
  unfold groupsOf
  generalize g.principal? _ = P, g'.principal? _ = P' at hP ⊢
  cases hP with
  | none => rfl
  | some hP => exact hP.groups

theorem boundary (p : String) :
    (g'.principal? p).bind Principal.boundary = (g.principal? p).bind Principal.boundary ∨
      (g'.principal? p).bind Principal.boundary = none := by
  have hP := h.principal? p
  generalize g.principal? _ = P, g'.principal? _ = P' at hP ⊢
  cases hP with
  | none => exact .inl rfl
  | some hP => exact hP.boundary

theorem textual (hg : g.Textual) : g'.Textual := by
  have hvalue : ∀ P' ∈ g'.principals.values, ∃ P ∈ g.principals.values, P.Relaxes P' := by
    intro P' hP'
    obtain ⟨⟨id', _⟩, hentry', rfl⟩ := List.mem_map.1 hP'
    obtain ⟨⟨id, P⟩, hentry, -, hP⟩ := exists_of_forall₂_right h.principals hentry'
    exact ⟨P, List.mem_map.2 ⟨_, hentry, rfl⟩, hP⟩
  have hrest := h.rest
  constructor
  · intro P' hP'
    obtain ⟨P, hP, hrelaxes⟩ := hvalue P' hP'
    rw [hrelaxes.arn]
    exact hg.arns P hP
  · intro P' hP'
    obtain ⟨P, hP, hrelaxes⟩ := hvalue P' hP'
    rw [hrelaxes.groups]
    exact hg.groups P hP
  · intro deny owner a e hholds
    rw [hrest] at hholds
    exact hg.patterns deny owner a e hholds

variable {c c' : Context} (hc : c.Relaxes c') (action : String) (resource : Json)

include hc

/-- Every layer of one's own says what it said; or nothing, if its policy was dropped. -/
theorem ownVerdict_relaxed (p : String) (l : Layer) :
    let verdict := (g.ownVerdict Condition.standard ⟨action, resource, c⟩ p l).outcome
    let verdict' := (g'.ownVerdict Condition.standard ⟨action, resource, c'⟩ p l).outcome
    verdict' = verdict ∨ (l ≠ .grants ∧ verdict' = .ok .notApplicable) := by
  intro verdict verdict'
  have hallows : g'.allows = g.allows := by rw [h.rest]
  have hdenies : g'.denies = g.denies := by rw [h.rest]
  cases l with
  | organization =>
    simp only [verdict, verdict', ownVerdict]
    rcases h.guardrails with hsame | hnone
    · rw [hsame]
      refine .inl ?_
      split
      · rfl
      · exact hc.guard_verdict action resource _ _
    · rw [hnone, List.isEmpty_nil, Bool.or_true]
      exact .inr ⟨by decide, rfl⟩
  | boundary =>
    exact (hc.guard_optional action resource .boundary (h.boundary p)).imp_right
      fun hnone => ⟨by decide, hnone⟩
  | session =>
    exact (hc.guard_optional action resource .session hc.session).imp_right
      fun hnone => ⟨by decide, hnone⟩
  | denials =>
    have howner (owner : Json) :
        g'.deniesOwner Condition.standard ⟨action, resource, c'⟩ owner =
          g.deniesOwner Condition.standard ⟨action, resource, c⟩ owner := by
      unfold deniesOwner
      rw [hdenies, funext (hc.edge_denies action resource)]
    refine .inl ?_
    unfold verdict verdict'
    rw [denials_outcome, denials_outcome, h.groups, funext howner]
  | grants =>
    refine .inl ?_
    unfold verdict verdict'
    rw [grants_outcome, grants_outcome, hallows, funext (hc.edge_allows action resource)]
  | groups => exact .inl rfl

/-- No layer is stricter than before. -/
theorem follows : Follows g Condition.standard ⟨action, resource, c⟩ g' Condition.standard
    ⟨action, resource, c'⟩ where
  groups := h.groups
  guards p l _ hthrough hdeny := by
    rcases h.ownVerdict_relaxed hc action resource p l with hsame | ⟨-, hnone⟩
    · rw [hsame, hthrough] at hdeny
      cases hdeny
    · rw [hnone] at hdeny
      cases hdeny
  grants p hallow hnone := by
    rcases h.ownVerdict_relaxed hc action resource p .grants with hsame | ⟨hne, -⟩
    · rw [hsame, hallow] at hnone
      cases hnone
    · exact hne rfl

end Relaxes

/-! ## What no edge is about -/

/-- What covers a resource that is a text is a text that matches it. -/
theorem pattern_of_covers {v : Json} {t : String} (h : covers v (.str t) = .ok true) :
    ∃ q, v = .str q ∧ resourceMatches q t = true := by
  by_cases hv : ∃ q, v = .str q
  · obtain ⟨q, rfl⟩ := hv
    exact ⟨q, rfl, Except.ok.inj h⟩
  · rw [covers_not_text hv] at h
    cases h

section

variable {g : Graph} {e : Condition.Evaluator} {r : Request} {p : String}

/-- A grant comes from an allow edge that is about the request. -/
theorem edge_of_grants (h : (g.ownVerdict e r p .grants).outcome = .ok .allow) :
    ∃ a edge, g.Holds false p a edge ∧ actionMatches a r.action = true ∧
      covers edge.pattern r.resource = .ok true := by
  rw [grants_outcome] at h
  rcases map_found h with ⟨hscan, -⟩ | ⟨-, hno⟩
  · obtain ⟨edge, hedge, hallows⟩ := exists_of_anyPasses hscan
    obtain ⟨a, hholds, ha⟩ := (EdgeIndex.mem_concerning _ _ _ _).1 hedge
    obtain ⟨covered, hcovers, hboth⟩ := map_eq_ok hallows
    obtain ⟨rfl, -⟩ := Bool.and_eq_true_iff.1 hboth
    exact ⟨a, edge, hholds, ha, hcovers⟩
  · cases hno

/-- Who is allowed a request by layers of its own has an edge that is about it. -/
theorem edge_of_own {d : Decision}
    (ho : (settle (g.ownVerdict e r p) Layer.own).outcome = .ok d) (hd : d.allowed = true) :
    ∃ a edge, g.Holds false p a edge ∧ actionMatches a r.action = true ∧
      covers edge.pattern r.resource = .ok true := by
  have hown : Layer.own = Layer.guards ++ [.grants] := rfl
  rw [hown] at ho
  have hthrough := through_of_ok (fun l hl => guard_layer_ne_allow g e r p hl)
    (fun _ _ _ => hd) ho
  rw [settle_through hthrough] at ho
  obtain ⟨verdict, hv⟩ := settle_answers ho
  cases verdict with
  | allow => exact edge_of_grants hv
  | deny =>
    rw [settle_deny hv] at ho
    cases ho
    cases hd
  | notApplicable =>
    rw [settle_skip hv] at ho
    cases ho
    cases hd

/-- What is permitted is allowed by an edge of the principal or of one of its groups. -/
theorem edge_of_permits (h : (g.permits e r (.str p)).outcome = .ok true) :
    ∃ q, (q = p ∨ .str q ∈ g.groupsOf p) ∧ ∃ a edge, g.Holds false q a edge ∧
      actionMatches a r.action = true ∧ covers edge.pattern r.resource = .ok true := by
  rw [permits_outcome, decision_outcome, decide_outcome] at h
  obtain ⟨d, ho, hd⟩ := map_eq_ok h
  obtain ⟨own, hown, ho⟩ := bind_eq_ok ho
  cases hl : own.layer with
  | some l =>
    rw [hl] at ho
    obtain rfl := Except.ok.inj ho
    exact ⟨p, .inl rfl, edge_of_own hown hd⟩
  | none =>
    rw [hl] at ho
    obtain ⟨hit, hscan, rfl⟩ := map_eq_ok ho
    cases hit with
    | false => cases hd
    | true =>
      obtain ⟨group, hgroup, hgrants⟩ := exists_of_anyPasses hscan
      obtain ⟨q, hq, hgrants⟩ := bind_eq_ok hgrants
      obtain ⟨d, hown, hd⟩ := bind_eq_ok hgrants
      cases group with
      | str s =>
        obtain rfl : s = q := Except.ok.inj hq
        exact ⟨s, .inr hgroup, edge_of_own hown (Except.ok.inj hd)⟩
      | _ => cases hq

end

variable {g : Graph} {x : Setting}

/-- What is permitted on a resource that is a text is allowed by an edge with a text for pattern. -/
theorem meets_of_permits {p : String}
    (h : (g.permits x.evaluator x.request (.str p)).outcome = .ok true) :
    ∃ q, (q = p ∨ .str q ∈ g.groupsOf p) ∧ ∃ a e, g.Holds false q a e ∧ x.Meets a e := by
  obtain ⟨q, hq, a, e, hholds, ha, hcovers⟩ := edge_of_permits h
  exact ⟨q, hq, a, e, hholds, ha, pattern_of_covers hcovers⟩

/-! ## Top theorem -/

/-- Reading is all that a policy lets through. -/
def readOnly : Document := ⟨[⟨"Allow", ["read"], ["*"], .null, .null, ""⟩], "", ""⟩

/-- A member of the staff, which may do anything; the organization, the boundaries of both and the
session let only reads through. -/
def guarded (boundary : Option Document) (guardrails : List Document) : Graph :=
  let staff : Principal :=
    { member with arn := .str "staff", kind := .group, groups := [], boundary }
  let principals : OrderedMap Identifier Principal := .ofList
    [("member", { member with groups := [.str "staff"], boundary }), ("staff", staff)]
  ({ empty with principals, guardrails } : Graph).insertEdge "staff" "*" false
    ⟨.str "*", .null, ""⟩

theorem guarded_relaxes (boundary : Option Document) (guardrails : List Document) :
    (guarded boundary guardrails).Relaxes (guarded none []) where
  guardrails := .inr rfl
  principals := .cons ⟨rfl, .inr rfl⟩ (.cons ⟨rfl, .inr rfl⟩ .nil)
  rest := rfl

theorem guarded_textual (boundary : Option Document) (guardrails : List Document) :
    (guarded boundary guardrails).Textual := by
  have hprincipals := ((textual_empty guardrails).insertPrincipal "member"
    (p := { member with groups := [.str "staff"], boundary }) ⟨_, rfl⟩
    fun q hq => ⟨"staff", List.mem_singleton.1 hq⟩).insertPrincipal "staff"
    (p := { member with arn := .str "staff", kind := .group, groups := [], boundary }) ⟨_, rfl⟩
    fun q hq => absurd hq List.not_mem_nil
  exact hprincipals.insertEdge "staff" "*" false ⟨"*", rfl⟩

end Graph
end CloudAccess
