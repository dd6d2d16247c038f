import CloudAccess.Decision
import CloudAccess.Proofs.Outcomes

/-!
# What the scans of a decision answer

Every loop of a decision looks for the first item that settles it.  Its outcome is that of
`anyPasses` with the test of one item, and the log plays no part in it:

* a statement of a guarding layer: `Statement.allows`, `Statement.denies`;
* an edge: `Edge.allows`, `Edge.denies`;
* an owner of deny edges: `Graph.deniesOwner`; a group: `Graph.grantsGroup`.

A condition has to hold `surely` for an allow, and `perhaps` for a deny.
-/

namespace CloudAccess

open Condition (Evaluator)

/-! ## Algorithm -/

/-- A condition is true; one that fails is not. -/
def surely : Except String Bool → Bool
  | .ok b => b
  | .error _ => false

/-- A condition is true or fails. -/
def perhaps : Except String Bool → Bool
  | .ok b => b
  | .error _ => true

/-- A statement allows a request. -/
def Statement.allows (e : Evaluator) (r : Request) (s : Statement) : Except Fault Bool :=
  if s.isAllow then (s.concerns r).map (· && surely (e s.condition r.context)) else .ok false

/-- A statement denies a request. -/
def Statement.denies (e : Evaluator) (r : Request) (s : Statement) : Except Fault Bool :=
  if s.isDeny then (s.concerns r).map (· && perhaps (e s.condition r.context)) else .ok false

/-- An edge allows a request of its owner. -/
def Edge.allows (e : Evaluator) (r : Request) (edge : Edge) : Except Fault Bool :=
  (covers edge.pattern r.resource).map (· && surely (e edge.conditions r.context))

/-- An edge denies a request to its owner. -/
def Edge.denies (e : Evaluator) (r : Request) (edge : Edge) : Except Fault Bool :=
  (covers edge.pattern r.resource).map (· && perhaps (e edge.conditions r.context))

namespace Graph

/-- One of an owner's edges denies a request. -/
def deniesOwner (g : Graph) (e : Evaluator) (r : Request) (owner : Json) : Except Fault Bool := do
  let id ← Identifier.ofJson owner
  anyPasses (Edge.denies e r) (g.denies.concerning id r.action)

/-- A group is granted a request. -/
def grantsGroup (g : Graph) (e : Evaluator) (r : Request) (group : Json) : Except Fault Bool := do
  let name ← principalText group
  let d ← (settle (g.ownVerdict e r name) Layer.own).outcome
  return d.allowed

end Graph

/-! ## Lemmas -/

/-- A run that tries one item after the other is a scan. -/
theorem outcome_eq_anyPasses {α : Type} {test : α → Except Fault Bool}
    {run : List α → Run Fault Bool} (nil : (run []).outcome = .ok false)
    (cons : ∀ a rest, (run (a :: rest)).outcome =
      test a >>= fun b => if b then .ok true else (run rest).outcome) (l : List α) :
    (run l).outcome = anyPasses test l := by
  induction l with
  | nil => exact nil
  | cons a rest ih =>
    rw [cons, ih]
    rfl

/-- A scan that found something found an item. -/
theorem exists_of_anyPasses {α : Type} {test : α → Except Fault Bool} {l : List α}
    (h : anyPasses test l = .ok true) : ∃ a ∈ l, test a = .ok true := by
  induction l with
  | nil => cases h
  | cons a rest ih =>
    rw [anyPasses] at h
    obtain ⟨head, ha, hrest⟩ := bind_eq_ok h
    cases head with
    | true => exact ⟨a, List.mem_cons_self, ha⟩
    | false =>
      obtain ⟨b, hb, htest⟩ := ih hrest
      exact ⟨b, List.mem_cons_of_mem a hb, htest⟩

/-- A scan finds nothing when every item was tried and failed. -/
theorem anyPasses_eq_false_iff {α : Type} {test : α → Except Fault Bool} {l : List α} :
    anyPasses test l = .ok false ↔ ∀ a ∈ l, test a = .ok false := by
  induction l with
  | nil => exact ⟨fun _ a ha => absurd ha List.not_mem_nil, fun _ => rfl⟩
  | cons a rest ih =>
    rw [anyPasses, List.forall_mem_cons, ← ih]
    constructor
    · intro h
      obtain ⟨head, ha, hrest⟩ := bind_eq_ok h
      cases head with
      | true => cases hrest
      | false => exact ⟨ha, hrest⟩
    · rintro ⟨ha, hrest⟩
      rw [ha]
      exact hrest

section

variable (e : Evaluator) (r : Request)

/-- An item is passed over if it is about something else, and settled by its condition if not. -/
theorem tried_outcome {about : Except Fault Bool} {passes : Bool} {here next : Run Fault Bool}
    (hhere : here.outcome = if passes then .ok true else next.outcome) :
    (do if !(← Traced.ofExcept about) then next else here : Run Fault Bool).outcome =
      about.map (· && passes) >>= fun b => if b then .ok true else next.outcome := by
  rw [Traced.outcome_bind, Traced.outcome_ofExcept]
  cases about with
  | error f => rfl
  | ok b =>
    cases b with
    | false => rfl
    | true => exact hhere

theorem Guard.allowed_outcome (guard : Guard) (ss : List Statement) :
    (guard.allowed e r ss).outcome = anyPasses (Statement.allows e r) ss := by
  refine outcome_eq_anyPasses rfl (fun s rest => ?_) ss
  rw [allowed, Statement.allows]
  cases s.isAllow with
  | false => rfl
  | true =>
    refine tried_outcome ?_
    cases e s.condition r.context with
    | error reason => rfl
    | ok b => cases b <;> rfl

theorem Guard.denied_outcome (guard : Guard) (ss : List Statement) :
    (guard.denied e r ss).outcome = anyPasses (Statement.denies e r) ss := by
  refine outcome_eq_anyPasses rfl (fun s rest => ?_) ss
  rw [denied, Statement.denies]
  cases s.isDeny with
  | false => rfl
  | true =>
    refine tried_outcome ?_
    cases e s.condition r.context with
    | error reason => rfl
    | ok b => cases b <;> rfl

/-- A guarding layer lets a request through when a statement allows it and none denies it. -/
theorem Guard.verdict_outcome (guard : Guard) (ss : List Statement) :
    (guard.verdict e r ss).outcome = (do
      if ← anyPasses (Statement.allows e r) ss then
        return if ← anyPasses (Statement.denies e r) ss then .deny else .notApplicable
      else return .deny) := by
  unfold verdict
  rw [Traced.outcome_bind, allowed_outcome]
  cases anyPasses (Statement.allows e r) ss with
  | error f => rfl
  | ok b =>
    cases b with
    | false => rfl
    | true =>
      simp only [if_true, bind, Except.bind]
      rw [← denied_outcome e r guard ss]
      cases (guard.denied e r ss).outcome <;> rfl

theorem Guard.verdict_notApplicable_iff (guard : Guard) (ss : List Statement) :
    (guard.verdict e r ss).outcome = .ok .notApplicable ↔
      anyPasses (Statement.allows e r) ss = .ok true ∧
        anyPasses (Statement.denies e r) ss = .ok false := by
  rw [verdict_outcome]
  cases anyPasses (Statement.allows e r) ss with
  | error f => exact ⟨fun h => (by cases h), fun h => (by cases h.1)⟩
  | ok allowed =>
    cases allowed with
    | false => exact ⟨fun h => (by cases h), fun h => (by cases h.1)⟩
    | true =>
      rw [ok_bind, if_pos rfl]
      cases anyPasses (Statement.denies e r) ss with
      | error f => exact ⟨fun h => (by cases h), fun h => (by cases h.2)⟩
      | ok denied =>
        cases denied with
        | false => exact ⟨fun _ => ⟨rfl, rfl⟩, fun _ => rfl⟩
        | true => exact ⟨fun h => (by cases h), fun h => (by cases h.2)⟩

theorem Guard.verdict_ne_allow (guard : Guard) (ss : List Statement) :
    (guard.verdict e r ss).outcome ≠ .ok .allow := by
  rw [verdict_outcome]
  cases anyPasses (Statement.allows e r) ss with
  | error f => exact nofun
  | ok allowed =>
    cases allowed with
    | false => exact nofun
    | true =>
      rw [ok_bind, if_pos rfl]
      cases anyPasses (Statement.denies e r) ss with
      | error f => exact nofun
      | ok denied => cases denied <;> exact nofun

namespace Graph

theorem deniedBy_outcome (principal : String) (owner : Json) (edges : List Edge) :
    (deniedBy e r principal owner edges).outcome = anyPasses (Edge.denies e r) edges := by
  refine outcome_eq_anyPasses rfl (fun edge rest => ?_) edges
  rw [deniedBy, Edge.denies]
  refine tried_outcome ?_
  cases e edge.conditions r.context with
  | error reason => rfl
  | ok b => cases b <;> rfl

theorem allowedBy_outcome (principal : String) (edges : List Edge) :
    (allowedBy e r principal edges).outcome = anyPasses (Edge.allows e r) edges := by
  refine outcome_eq_anyPasses rfl (fun edge rest => ?_) edges
  rw [allowedBy, Edge.allows]
  refine tried_outcome ?_
  cases e edge.conditions r.context with
  | error reason => rfl
  | ok b => cases b <;> rfl

variable (g : Graph)

theorem deniedToAny_outcome (principal : String) (owners : List Json) :
    (g.deniedToAny e r principal owners).outcome = anyPasses (g.deniesOwner e r) owners := by
  refine outcome_eq_anyPasses rfl (fun owner rest => ?_) owners
  rw [deniedToAny, deniesOwner, Traced.outcome_bind, Traced.outcome_ofExcept]
  cases Identifier.ofJson owner with
  | error f => rfl
  | ok id =>
    simp only [ok_bind, Traced.outcome_bind, deniedBy_outcome]
    cases anyPasses (Edge.denies e r) (g.denies.concerning id r.action) with
    | error f => rfl
    | ok b => cases b <;> rfl

theorem grantedToAny_outcome (principal : String) (groups : List Json) :
    (g.grantedToAny e r principal groups).outcome = anyPasses (g.grantsGroup e r) groups := by
  refine outcome_eq_anyPasses rfl (fun group rest => ?_) groups
  rw [grantedToAny, grantsGroup, Traced.outcome_bind, Traced.outcome_ofExcept]
  cases principalText group with
  | error f => rfl
  | ok name =>
    simp only [ok_bind, Traced.outcome_bind]
    cases (settle (g.ownVerdict e r name) Layer.own).outcome with
    | error f => rfl
    | ok d =>
      obtain ⟨allowed, layer⟩ := d
      cases allowed <;> rfl

end Graph

end

end CloudAccess
