import CloudAccess.Decision
import CloudAccess.Proofs.Graph.Textual

/-!
# What a decision rests on

A `Setting` is a request with all that it is asked under.  A `Basis` is what the policies come to
in a setting: the organization policies, each principal's boundary and groups, and who is allowed
or denied the request by policies of its own.

`Basis.Settles` says which decision a basis leads to, by rules instead of a run through layers:

* the first guarding layer that does not let the request through denies it (`Basis.Lets`);
* past all of them, an own allow grants the request, and so does the allow of a group that is
  past all of them itself.

`Basis.Settles.unique` says that there is one such decision, and `Basis.Settles.allowed_iff` which
requests are allowed.
-/

namespace CloudAccess

open Condition (Evaluator)

/-! ## Settings -/

/-- A request for a resource that is named by a text, with what decides its conditions. -/
structure Setting where
  evaluator : Evaluator
  context : Context
  action : String
  target : String

namespace Setting

variable (x : Setting)

def request : Request := ⟨x.action, .str x.target, x.context⟩

/-- What a condition comes to: true, false or a failure. -/
def answer (condition : Json) : Except String Bool := x.evaluator condition x.context

/-- Some action pattern and some resource pattern match the request. -/
def Matches (actions patterns : List String) : Prop :=
  (∃ a ∈ actions, actionMatches a x.action = true) ∧
    ∃ q ∈ patterns, resourceMatches q x.target = true

/-- A statement allows the request. -/
def AllowedBy (s : Statement) : Prop :=
  s.effect = "Allow" ∧ x.Matches s.actions s.resources ∧ x.answer s.condition = .ok true

/-- A statement denies the request; it does so too when its condition fails. -/
def DeniedBy (s : Statement) : Prop :=
  s.effect = "Deny" ∧ x.Matches s.actions s.resources ∧ x.answer s.condition ≠ .ok false

/-- The statements of a guarding layer let the request through. -/
def Passes (ss : List Statement) : Prop := (∃ s ∈ ss, x.AllowedBy s) ∧ ∀ s ∈ ss, ¬ x.DeniedBy s

/-- An edge under an action pattern is about the request. -/
def Meets (a : String) (e : Edge) : Prop :=
  actionMatches a x.action = true ∧ ∃ q, e.pattern = .str q ∧ resourceMatches q x.target = true

end Setting

/-! ## Bases -/

/-- What the policies come to in one setting. -/
structure Basis where
  guardrails : List Document
  boundary : String → Option Document
  groups : String → List String
  /-- Whom a policy of its own allows the request. -/
  allows : String → Prop
  /-- Whom a policy of its own denies the request. -/
  denies : String → Prop

/-- The layers that can only deny. -/
def Layer.guards : List Layer := [organization, boundary, session, denials]

namespace Basis

variable (b : Basis) (x : Setting) (p : String)

/-- A layer does not stand in the way of a principal's request. -/
def Lets : Layer → Prop
  | .organization =>
    Arn.isAccountRoot p = true ∨ b.guardrails = [] ∨
      x.Passes (b.guardrails.flatMap Document.statements)
  | .boundary => ∀ d, b.boundary p = some d → x.Passes d.statements
  | .session => ∀ d, x.context.session = some d → x.Passes d.statements
  | .denials => ¬ b.denies p ∧ ∀ q ∈ b.groups p, ¬ b.denies q
  | .grants | .groups => True

/-- No guarding layer stands in the way. -/
def Clear : Prop := ∀ l ∈ Layer.guards, b.Lets x p l

/-- A group of the principal is allowed the request in its own right. -/
def Inherits : Prop := ∃ q ∈ b.groups p, b.Clear x q ∧ b.allows q

/-- The request is allowed. -/
def Permits : Prop := b.Clear x p ∧ (b.allows p ∨ b.Inherits x p)

/-- The decision that a basis leads to. -/
inductive Settles : Decision → Prop
  | blocked (before : List Layer) (l : Layer) (after : List Layer) :
      Layer.guards = before ++ l :: after → (∀ k ∈ before, b.Lets x p k) → ¬ b.Lets x p l →
      Settles ⟨false, some l⟩
  | granted : b.Clear x p → b.allows p → Settles ⟨true, some .grants⟩
  | inherited : b.Clear x p → ¬ b.allows p → b.Inherits x p → Settles ⟨true, some .groups⟩
  | implicit : b.Clear x p → ¬ b.allows p → ¬ b.Inherits x p → Settles .implicit

variable {b x p}

theorem Settles.allowed_iff {d : Decision} (h : b.Settles x p d) :
    d.allowed = true ↔ b.Permits x p := by
  unfold Permits
  cases h with
  | blocked before l after hg hk hl =>
    have hm : l ∈ Layer.guards := by rw [hg]; simp
    constructor
    · intro hd; cases hd
    · rintro ⟨hc, -⟩; exact absurd (hc l hm) hl
  | granted hc ha => exact ⟨fun _ => ⟨hc, .inl ha⟩, fun _ => rfl⟩
  | inherited hc _ hi => exact ⟨fun _ => ⟨hc, .inr hi⟩, fun _ => rfl⟩
  | implicit hc ha hi =>
    constructor
    · intro hd; cases hd
    · rintro ⟨-, h | h⟩
      · exact absurd h ha
      · exact absurd h hi

/-- A layer that blocks is the first one that does, so no other is. -/
theorem blocked_unique {before before' after after' : List Layer} {l l' : Layer} {P : Layer → Prop}
    (h : before ++ l :: after = before' ++ l' :: after')
    (hb : ∀ k ∈ before, P k) (hl : ¬ P l) (hb' : ∀ k ∈ before', P k) (hl' : ¬ P l') : l = l' := by
  induction before generalizing before' with
  | nil =>
    cases before' with
    | nil => exact (List.cons.inj h).1
    | cons k rest =>
      have hk : l = k := (List.cons.inj h).1
      exact absurd (hb' k List.mem_cons_self) (hk ▸ hl)
  | cons k rest ih =>
    cases before' with
    | nil =>
      have hk : k = l' := (List.cons.inj h).1
      exact absurd (hb k List.mem_cons_self) (hk ▸ hl')
    | cons k' rest' =>
      exact ih (List.cons.inj h).2 (fun j hj => hb j (List.mem_cons_of_mem _ hj))
        (fun j hj => hb' j (List.mem_cons_of_mem _ hj))

/-- A basis leads to one decision. -/
theorem Settles.unique {d d' : Decision} (h : b.Settles x p d) (h' : b.Settles x p d') :
    d = d' := by
  have clear {before l after} (hg : Layer.guards = before ++ l :: after)
      (hl : ¬ b.Lets x p l) : ¬ b.Clear x p := by
    intro hc
    exact hl (hc l (by rw [hg]; simp))
  cases h with
  | blocked before l after hg hk hl =>
    cases h' with
    | blocked _ _ _ hg' hk' hl' => rw [blocked_unique (hg ▸ hg') hk hl hk' hl']
    | granted hc => exact absurd hc (clear hg hl)
    | inherited hc => exact absurd hc (clear hg hl)
    | implicit hc => exact absurd hc (clear hg hl)
  | granted hc ha =>
    cases h' with
    | blocked _ _ _ hg' _ hl' => exact absurd hc (clear hg' hl')
    | granted => rfl
    | inherited _ ha' => exact absurd ha ha'
    | implicit _ ha' => exact absurd ha ha'
  | inherited hc ha hi =>
    cases h' with
    | blocked _ _ _ hg' _ hl' => exact absurd hc (clear hg' hl')
    | granted _ ha' => exact absurd ha' ha
    | inherited => rfl
    | implicit _ _ hi' => exact absurd hi hi'
  | implicit hc ha hi =>
    cases h' with
    | blocked _ _ _ hg' _ hl' => exact absurd hc (clear hg' hl')
    | granted _ ha' => exact absurd ha' ha
    | inherited _ _ hi' => exact absurd hi' hi
    | implicit => rfl

end Basis

/-! ## The basis of a graph -/

namespace Graph

/-- What a graph has recorded for a setting. -/
def basis (g : Graph) (x : Setting) : Basis where
  guardrails := g.guardrails
  boundary p := (g.principal? p).bind Principal.boundary
  groups p := Json.textsOf (g.groupsOf p)
  allows p := ∃ a e, g.Holds false p a e ∧ x.Meets a e ∧ x.answer e.conditions = .ok true
  denies p := ∃ a e, g.Holds true p a e ∧ x.Meets a e ∧ x.answer e.conditions ≠ .ok false

end Graph
end CloudAccess
