import CloudAccess.Proofs.Decision.Comparison
import CloudAccess.Proofs.Graph.Frames
import Mathlib.Data.List.Forall2

/-!
# Graphs that agree on a target

Decisions about a target look at the edges that cover it and at no other edge.  Two graphs agree on
a target (`Graph.AgreeOn`) when they have those edges in common, besides the policies that guard
and the groups.  Then they do not answer differently:

    AgreeOn x.target g g' → (g.permits … p).outcome = .ok b →
      (g'.permits … p).outcome = .ok b' → b = b'                           (AgreeOn.permits)

Edges may stand in another order, so that one graph comes upon a pattern that is no text where the
other has its answer already.  One direction is enough for `Eases`: what is permitted is not refused
where the second graph denies no more and allows no less (`Eases.follows`).

What the record of a resource adds to a graph is edges only (`Graph.Extends`), which are those of
its policy (`Resource.Writes`).  So graphs go on agreeing while records are added that write the
same about the target (`AgreeOn.foldlM`).
-/

namespace CloudAccess

open Condition (Evaluator)

namespace Graph

/-! ## Guards and groups -/

/-- Two graphs have the same policies that guard, and the same groups. -/
structure Alike (g g' : Graph) : Prop where
  guardrails : g'.guardrails = g.guardrails
  boundary : ∀ p : String,
    (g'.principal? p).bind Principal.boundary = (g.principal? p).bind Principal.boundary
  groups : ∀ p, g'.groupsOf p = g.groupsOf p

namespace Alike

variable {g g' g'' : Graph}

theorem refl (g : Graph) : Alike g g := ⟨rfl, fun _ => rfl, fun _ => rfl⟩

theorem symm (h : Alike g g') : Alike g' g where
  guardrails := h.guardrails.symm
  boundary p := (h.boundary p).symm
  groups p := (h.groups p).symm

theorem trans (h : Alike g g') (h' : Alike g' g'') : Alike g g'' where
  guardrails := h'.guardrails.trans h.guardrails
  boundary p := (h'.boundary p).trans (h.boundary p)
  groups p := (h'.groups p).trans (h.groups p)

/-- Edges play no part in it. -/
theorem of_principals (hp : g'.principals = g.principals) (hg : g'.guardrails = g.guardrails) :
    Alike g g' where
  guardrails := hg
  boundary p := by
    unfold principal?
    rw [hp]
  groups p := by
    unfold groupsOf principal?
    rw [hp]

end Alike

/-- What passes a test that only covering edges pass is an edge that covers. -/
theorem covers_of_map {e : Edge} {r : Request} {b : Bool}
    (h : (covers e.pattern r.resource).map (· && b) = .ok true) :
    covers e.pattern r.resource = .ok true := by
  cases hc : covers e.pattern r.resource with
  | error f => rw [hc] at h; cases h
  | ok covered =>
    rw [hc] at h
    cases covered with
    | true => rfl
    | false => cases Except.ok.inj h

/-! ## Easing -/

/-- On a target the second graph denies no more than the first one, and allows no less. -/
structure Eases (target : Json) (g g' : Graph) : Prop extends Alike g g' where
  denies : ∀ o a e, covers e.pattern target = .ok true → g'.Holds true o a e → g.Holds true o a e
  allows : ∀ o a e, covers e.pattern target = .ok true → g.Holds false o a e → g'.Holds false o a e

namespace Eases

variable {g g' : Graph} {r : Request} (ev : Evaluator)

/-- Where the first graph denies nothing, the second one does not deny. -/
theorem denials_ne_true (h : Eases r.resource g g') {owners : List Json}
    (hf : anyPasses (g.deniesOwner ev r) owners = .ok false) :
    anyPasses (g'.deniesOwner ev r) owners ≠ .ok true := by
  intro ht
  obtain ⟨owner, ho, hhit⟩ := exists_of_anyPasses ht
  have hmiss := anyPasses_eq_false_iff.1 hf owner ho
  unfold deniesOwner at hhit hmiss
  obtain ⟨id, hid, hscan⟩ := bind_eq_ok hhit
  rw [hid, ok_bind] at hmiss
  obtain ⟨e, he, hdeny⟩ := exists_of_anyPasses hscan
  obtain ⟨a, ha, hm⟩ := (EdgeIndex.mem_concerning _ _ _ _).1 he
  have hmem : e ∈ g.denies.concerning id r.action :=
    (EdgeIndex.mem_concerning _ _ _ _).2 ⟨a, h.denies id a e (covers_of_map hdeny) ha, hm⟩
  rw [anyPasses_eq_false_iff.1 hmiss e hmem] at hdeny
  cases hdeny

/-- Where the first graph has an own allow, the second one does not lack it. -/
theorem grants_ne_false (h : Eases r.resource g g') {p : String}
    (ht : anyPasses (Edge.allows ev r) (g.allows.concerning p r.action) = .ok true) :
    anyPasses (Edge.allows ev r) (g'.allows.concerning p r.action) ≠ .ok false := by
  intro hf
  obtain ⟨e, he, hallow⟩ := exists_of_anyPasses ht
  obtain ⟨a, ha, hm⟩ := (EdgeIndex.mem_concerning _ _ _ _).1 he
  have hmem : e ∈ g'.allows.concerning p r.action :=
    (EdgeIndex.mem_concerning _ _ _ _).2 ⟨a, h.allows p a e (covers_of_map hallow) ha, hm⟩
  rw [anyPasses_eq_false_iff.1 hf e hmem] at hallow
  cases hallow

theorem follows (h : Eases r.resource g g') : Follows g ev r g' ev r where
  groups := h.groups
  guards p l hl hthrough hdeny := by
    have hsame (he : g'.ownVerdict ev r p l = g.ownVerdict ev r p l) : False := by
      rw [he, hthrough] at hdeny
      cases hdeny
    cases l with
    | organization =>
      refine hsame ?_
      simp only [ownVerdict, h.guardrails]
    | boundary =>
      refine hsame ?_
      simp only [ownVerdict, h.boundary]
    | session => exact hsame rfl
    | denials =>
      rw [denials_outcome] at hthrough hdeny
      rw [h.groups] at hdeny
      rcases map_found hthrough with ⟨-, hno⟩ | ⟨hnone, -⟩
      · cases hno
      rcases map_found hdeny with ⟨hsome, -⟩ | ⟨-, hno⟩
      · exact h.denials_ne_true ev hnone hsome
      · cases hno
    | grants => exact absurd hl (by decide)
    | groups => exact absurd hl (by decide)
  grants p hallow hnone := by
    rw [grants_outcome] at hallow hnone
    rcases map_found hallow with ⟨hsome, -⟩ | ⟨-, hno⟩
    · rcases map_found hnone with ⟨-, hno⟩ | ⟨hnone, -⟩
      · cases hno
      · exact h.grants_ne_false ev hsome hnone
    · cases hno

end Eases

/-! ## Agreement -/

/-- Two graphs differ at most in edges that do not cover a target. -/
structure AgreeOn (v : String) (g g' : Graph) : Prop extends Alike g g' where
  edges : ∀ deny o a e, covers e.pattern (.str v) = .ok true →
    (g'.Holds deny o a e ↔ g.Holds deny o a e)

namespace AgreeOn

variable {v : String} {g g' : Graph}

theorem refl (v : String) (g : Graph) : AgreeOn v g g := ⟨.refl g, fun _ _ _ _ _ => .rfl⟩

theorem symm (h : AgreeOn v g g') : AgreeOn v g' g :=
  ⟨h.toAlike.symm, fun deny o a e he => (h.edges deny o a e he).symm⟩

theorem eases (h : AgreeOn v g g') : Eases (.str v) g g' where
  toAlike := h.toAlike
  denies o a e he := (h.edges true o a e he).1
  allows o a e he := (h.edges false o a e he).2

variable {x : Setting}

theorem follows (h : AgreeOn x.target g g') :
    Follows g x.evaluator x.request g' x.evaluator x.request :=
  h.eases.follows x.evaluator

/-- Graphs that agree on the target of a request do not answer it differently. -/
theorem permits (h : AgreeOn x.target g g') {p : Json} {b b' : Bool}
    (ho : (g.permits x.evaluator x.request p).outcome = .ok b)
    (ho' : (g'.permits x.evaluator x.request p).outcome = .ok b') : b = b' := by
  cases b with
  | true =>
    cases b' with
    | true => rfl
    | false => exact absurd ho' (h.follows.permits ho)
  | false =>
    cases b' with
    | true => exact absurd ho (h.symm.follows.permits ho')
    | false => rfl

end AgreeOn

/-! ## Graphs with more edges -/

/-- A graph is another one with some more edges. -/
structure Extends (g : Graph) (adds : Bool → Identifier → String → Edge → Prop) (g' : Graph) :
    Prop extends Alike g g' where
  edges : ∀ deny o a e, g'.Holds deny o a e ↔ g.Holds deny o a e ∨ adds deny o a e

namespace Extends

variable {g g' g'' : Graph} {adds adds' : Bool → Identifier → String → Edge → Prop}

theorem congr (h : g.Extends adds g')
    (hadds : ∀ deny o a e, adds deny o a e ↔ adds' deny o a e) : g.Extends adds' g' :=
  ⟨h.toAlike, fun deny o a e => (h.edges deny o a e).trans (or_congr .rfl (hadds deny o a e))⟩

theorem trans (h : g.Extends adds g') (h' : g'.Extends adds' g'') :
    g.Extends (fun deny o a e => adds deny o a e ∨ adds' deny o a e) g'' :=
  ⟨h.toAlike.trans h'.toAlike, fun deny o a e => by rw [h'.edges, h.edges, or_assoc]⟩

/-- Graphs that agree go on doing so when what is added to each is the same about the target. -/
theorem agreeOn {v : String} {k k' : Graph} (h : AgreeOn v g g') (hk : g.Extends adds k)
    (hk' : g'.Extends adds' k')
    (hadds : ∀ deny o a e, covers e.pattern (.str v) = .ok true →
      (adds' deny o a e ↔ adds deny o a e)) : AgreeOn v k k' where
  toAlike := (hk.toAlike.symm.trans h.toAlike).trans hk'.toAlike
  edges deny o a e he := by
    rw [hk'.edges, hk.edges, h.edges deny o a e he, hadds deny o a e he]

end Extends

/-! ## What the policy of a resource adds -/

/-- A statement in the policy of a resource makes an edge of one of its grantees. -/
def Statement.Writes (resource : Json) (st : Statement) (deny : Bool) (o : Identifier) (a : String)
    (e : Edge) : Prop :=
  ∃ patterns, (confineTo resource st.resources).outcome = .ok patterns ∧
    (∃ id ∈ st.grantees, (Identifier.text (publicName id) == o) = true) ∧
    Statement.Makes st patterns deny a e

/-- The policy of a resource makes an edge. -/
def Resource.Writes (R : Resource) (deny : Bool) (o : Identifier) (a : String) (e : Edge) : Prop :=
  ∃ st ∈ R.statements, Statement.Writes R.arn st deny o a e

/-- One statement adds its edges; everyone may become a principal by it, which decides nothing. -/
theorem grant_extends (g : Graph) (resource : Json) (st : Statement) {patterns : List Json}
    (hc : (confineTo resource st.resources).outcome = .ok patterns) :
    g.Extends (Statement.Writes resource st) ((g.ensureEveryone st).1.grant st patterns) := by
  have k := Keeps.ensureEveryone g st
  have heveryone : Alike g (g.ensureEveryone st).1 := ⟨k.guardrails, k.boundary, k.groups⟩
  have hgrant := OnlyEdges.grant (g.ensureEveryone st).1 st patterns
  have hsame : Alike (g.ensureEveryone st).1 ((g.ensureEveryone st).1.grant st patterns) :=
    .of_principals hgrant.principals hgrant.guardrails
  refine ⟨heveryone.trans hsame, fun deny o a e => ?_⟩
  refine (holds_grant _ _ _ _ _ _ _).trans (or_congr (holds_ensureEveryone g st deny o a e) ?_)
  constructor
  · exact fun h => ⟨patterns, hc, h⟩
  · rintro ⟨patterns', hc', h⟩
    obtain rfl := Except.ok.inj (hc.symm.trans hc')
    exact h

theorem addResourceStatements_extends (resource : Json) (ss : List Statement) (g : Graph) {n : Nat}
    (ho : (addResourceStatements resource ss g).2.outcome = .ok n) :
    g.Extends (fun deny o a e => ∃ st ∈ ss, Statement.Writes resource st deny o a e)
      (addResourceStatements resource ss g).1 := by
  induction ss generalizing g n with
  | nil =>
    refine ⟨.refl g, fun deny o a e => ⟨.inl, ?_⟩⟩
    rintro (h | ⟨st, hst, -⟩)
    · exact h
    · exact absurd hst List.not_mem_nil
  | cons st rest ih =>
    unfold addResourceStatements at ho ⊢
    cases hc : confineTo resource st.resources with
    | mk outcome dropped =>
      rw [hc] at ho
      cases outcome with
      | error f => cases ho
      | ok patterns =>
        have hone : g.Extends (Statement.Writes resource st)
            ((g.ensureEveryone st).1.grant st patterns) :=
          grant_extends g resource st (by rw [hc])
        obtain ⟨m, hm, -⟩ := map_eq_ok ho
        refine (hone.trans (ih _ hm)).congr fun deny o a e => ?_
        simp only [List.mem_cons, exists_eq_or_imp]

/-- A resource that is recorded adds what its policy writes. -/
theorem addResource_extends {g k : Graph} {R : Resource} (ho : (g.addResource R).outcome = .ok k) :
    g.Extends (Resource.Writes R) k := by
  rw [addResource_outcome] at ho
  obtain ⟨id, -, ho⟩ := bind_eq_ok ho
  obtain ⟨n, hrun, rfl⟩ := map_eq_ok ho
  have hrecorded : Alike g { g with resources := g.resources.insert id R } := .of_principals rfl rfl
  have hadded := addResourceStatements_extends R.arn R.statements
    { g with resources := g.resources.insert id R } (mapError_eq_ok hrun)
  exact ⟨hrecorded.trans hadded.toAlike, hadded.edges⟩

/-- What one more record on both sides keeps, a run through records on both sides keeps. -/
theorem foldlM_side_by_side {g g' k k' : Graph} {β : Type} {f : Graph → β → Run SnapshotError Graph}
    {R : β → β → Prop} {P : Graph → Graph → Prop} {bs bs' : List β} (hbs : List.Forall₂ R bs bs')
    (step : ∀ {b b' g g' k k'}, R b b' → P g g' → (f g b).outcome = .ok k →
      (f g' b').outcome = .ok k' → P k k')
    (h : P g g') (ho : (bs.foldlM f g).outcome = .ok k) (ho' : (bs'.foldlM f g').outcome = .ok k') :
    P k k' := by
  induction hbs generalizing g g' with
  | nil =>
    obtain rfl := Except.ok.inj ho
    obtain rfl := Except.ok.inj ho'
    exact h
  | cons hb _ ih =>
    rw [List.foldlM_cons, Traced.outcome_bind] at ho ho'
    obtain ⟨g₁, h₁, hrest⟩ := bind_eq_ok ho
    obtain ⟨g₁', h₁', hrest'⟩ := bind_eq_ok ho'
    exact ih (step hb h h₁ h₁') hrest hrest'

/-- Graphs that agree on a target go on doing so while records are added that write the same about
it. -/
theorem AgreeOn.foldlM {v : String} {rs rs' : List Resource}
    (h : List.Forall₂ (fun R R' => ∀ deny o a e, covers e.pattern (.str v) = .ok true →
      (Resource.Writes R' deny o a e ↔ Resource.Writes R deny o a e)) rs rs')
    {g g' k k' : Graph} (hg : AgreeOn v g g')
    (ho : (rs.foldlM Graph.addResource g).outcome = .ok k)
    (ho' : (rs'.foldlM Graph.addResource g').outcome = .ok k') : AgreeOn v k k' :=
  foldlM_side_by_side h (fun hR hg h₁ h₁' => Extends.agreeOn hg (addResource_extends h₁)
    (addResource_extends h₁') hR) hg ho ho'

end Graph
end CloudAccess
