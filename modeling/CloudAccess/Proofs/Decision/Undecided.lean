import CloudAccess.Proofs.Decision.Comparison

/-!
# Conditions that cannot be decided

A condition that fails counts against the request.  So what is allowed while some conditions
fail stays allowed however these come out:

    Resolves e e' → (g.permits e r p).outcome = .ok true → (g.permits e' r p).outcome ≠ .ok false

The evaluator `e'` gives every answer that `e` gives.  A scan for allows then finds no less
(`anyPasses_grows`) and a scan for denies that found nothing finds nothing (`anyPasses_stays`), so
that the decision under `e'` follows the one under `e`.
-/

namespace CloudAccess

open Condition (Evaluator)

/-- The second evaluator gives each answer of the first one, and anything where that one fails. -/
def Resolves (e e' : Evaluator) : Prop := ∀ block c b, e block c = .ok b → e' block c = .ok b

/-- An answer stays an answer, and yes stays yes. -/
def Grows (o o' : Except Fault Bool) : Prop :=
  ∀ b, o = .ok b → ∃ b', o' = .ok b' ∧ (b = true → b' = true)

/-! ## Scans -/

theorem anyPasses_grows {α : Type} {test test' : α → Except Fault Bool}
    (h : ∀ a, Grows (test a) (test' a)) (l : List α) :
    Grows (anyPasses test l) (anyPasses test' l) := by
  induction l with
  | nil => exact fun b hb => ⟨b, hb, id⟩
  | cons a rest ih =>
    intro b hb
    rw [anyPasses] at hb ⊢
    cases ha : test a with
    | error f => rw [ha] at hb; cases hb
    | ok head =>
      obtain ⟨head', ho, hh⟩ := h a head ha
      rw [ho]
      cases head' with
      | true => exact ⟨true, rfl, fun _ => rfl⟩
      | false =>
        have hf : head = false := by
          cases head with
          | false => rfl
          | true => exact absurd (hh rfl) Bool.false_ne_true
        rw [ha, hf] at hb
        exact ih b hb

theorem anyPasses_stays {α : Type} {test test' : α → Except Fault Bool}
    (h : ∀ a, test a = .ok false → test' a = .ok false) {l : List α}
    (hl : anyPasses test l = .ok false) : anyPasses test' l = .ok false :=
  anyPasses_eq_false_iff.2 fun a ha => h a (anyPasses_eq_false_iff.1 hl a ha)

/-! ## Conditions, statements and edges -/

section

variable {e e' : Evaluator} (h : Resolves e e') (r : Request)

include h

theorem surely_of_resolves {block : Json} {c : Context} (hs : surely (e block c) = true) :
    surely (e' block c) = true := by
  rw [surely_iff] at hs ⊢
  exact h block c true hs

theorem perhaps_of_resolves {block : Json} {c : Context} (hp : perhaps (e block c) = false) :
    perhaps (e' block c) = false := by
  rw [← Bool.not_eq_true, perhaps_iff, Classical.not_not] at hp ⊢
  exact h block c false hp

theorem grows_map_surely (o : Except Fault Bool) (block : Json) (c : Context) :
    Grows (o.map (· && surely (e block c))) (o.map (· && surely (e' block c))) := by
  intro b hb
  cases o with
  | error f => cases hb
  | ok about =>
    refine ⟨_, rfl, fun ht => ?_⟩
    obtain rfl := Except.ok.inj hb
    rw [Bool.and_eq_true] at ht ⊢
    exact ⟨ht.1, surely_of_resolves h ht.2⟩

theorem stays_map_perhaps {o : Except Fault Bool} {block : Json} {c : Context}
    (hf : o.map (· && perhaps (e block c)) = .ok false) :
    o.map (· && perhaps (e' block c)) = .ok false := by
  cases o with
  | error f => cases hf
  | ok about =>
    have hb := Except.ok.inj hf
    show Except.ok (about && perhaps (e' block c)) = _
    rw [Bool.and_eq_false_iff] at hb
    rcases hb with rfl | hp
    · rfl
    · rw [perhaps_of_resolves h hp, Bool.and_false]

theorem grows_allows (s : Statement) : Grows (s.allows e r) (s.allows e' r) := by
  unfold Statement.allows
  split
  · exact grows_map_surely h _ _ _
  · exact fun b hb => ⟨b, hb, id⟩

theorem stays_denies {s : Statement} (hf : s.denies e r = .ok false) :
    s.denies e' r = .ok false := by
  unfold Statement.denies at hf ⊢
  split
  · next hd =>
    rw [if_pos hd] at hf
    exact stays_map_perhaps h hf
  · rfl

/-- A guarding layer that lets a request through does so however conditions come out. -/
theorem guard_stays {guard : Guard} {ss : List Statement}
    (hv : (guard.verdict e r ss).outcome = .ok .notApplicable) :
    (guard.verdict e' r ss).outcome = .ok .notApplicable := by
  rw [Guard.verdict_notApplicable_iff] at hv ⊢
  obtain ⟨b, hb, ht⟩ := anyPasses_grows (grows_allows h r) ss true hv.1
  exact ⟨by rw [hb, ht rfl], anyPasses_stays (fun s => stays_denies h r) hv.2⟩

namespace Graph

variable (g : Graph) (p : String)

theorem deniesOwner_stays {owner : Json} (hf : g.deniesOwner e r owner = .ok false) :
    g.deniesOwner e' r owner = .ok false := by
  unfold deniesOwner at hf ⊢
  cases hid : Identifier.ofJson owner with
  | error f => rw [hid] at hf; cases hf
  | ok id =>
    rw [hid] at hf
    exact anyPasses_stays (fun edge => stays_map_perhaps h) hf

/-- A guarding layer of edges or policies lets the request through as before. -/
theorem guard_layer_stays {l : Layer} (hl : l ∈ Layer.guards)
    (hv : (g.ownVerdict e r p l).outcome = .ok .notApplicable) :
    (g.ownVerdict e' r p l).outcome = .ok .notApplicable := by
  cases l with
  | organization =>
    simp only [ownVerdict] at hv ⊢
    split
    · rfl
    · next hc =>
      rw [if_neg hc] at hv
      exact guard_stays h r hv
  | boundary =>
    simp only [ownVerdict] at hv ⊢
    split
    · rfl
    · next d hd =>
      rw [hd] at hv
      exact guard_stays h r hv
  | session =>
    simp only [ownVerdict] at hv ⊢
    split
    · rfl
    · next d hd =>
      rw [hd] at hv
      exact guard_stays h r hv
  | denials =>
    simp only [ownVerdict, Traced.outcome_bind, deniedToAny_outcome] at hv ⊢
    cases hd : anyPasses (g.deniesOwner e r) (.str p :: g.groupsOf p) with
    | error f => rw [hd] at hv; cases hv
    | ok hit =>
      rw [hd] at hv
      cases hit with
      | true => cases hv
      | false =>
        rw [anyPasses_stays (fun owner => deniesOwner_stays h r g) hd]
        rfl
  | grants => exact absurd hl (by decide)
  | groups => exact absurd hl (by decide)

/-- Every layer of the second evaluator answers as before, or no more strictly. -/
theorem follows_of_resolves : Follows g e r g e' r where
  groups _ := rfl
  guards p l hl hv hdeny := by
    rw [guard_layer_stays h r g p hl hv] at hdeny
    cases hdeny
  grants p hv hnone := by
    rw [grants_outcome] at hv hnone
    rcases map_found hv with ⟨hscan, -⟩ | ⟨-, hno⟩
    · obtain ⟨hit, hscan', ht⟩ :=
        anyPasses_grows (fun edge => grows_map_surely h _ _ _) _ true hscan
      rw [ht rfl] at hscan'
      change anyPasses (Edge.allows e' r) _ = .ok true at hscan'
      rw [hscan'] at hnone
      cases hnone
    · cases hno

end Graph

end

namespace Graph

/-- A decision that allows stays one that allows, or ends in a fault. -/
theorem decide_stays {e e' : Evaluator} (h : Resolves e e') {g : Graph} {r : Request} {p : String}
    {d d' : Decision} (ho : (g.decide e r p).outcome = .ok d) (hd : d.allowed = true)
    (ho' : (g.decide e' r p).outcome = .ok d') : d'.allowed = true :=
  (follows_of_resolves h r g).decide ho hd ho'

/-! ## Top theorem -/

/-- A member who may also write when something holds that cannot be told. -/
def hesitant : Graph :=
  memberOfGroup.insertEdge "member" "write" false ⟨.str "*", .str "unheard of", ""⟩

/-- Only the empty condition is decided. -/
def decidesNull : Evaluator
  | .null, _ => .ok true
  | _, _ => .error "unknown"

end Graph

end CloudAccess
