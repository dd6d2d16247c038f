import CloudAccess.Proofs.Decision.Meaning

/-!
# Comparing two decisions

A request may be put to two graphs, or be decided by two evaluators.  The second follows the
first when no layer of it is stricter (`Follows`); what the first permits it then never refuses:

    Follows g e r g' e' r' → (g.permits e r p).outcome = .ok true →
      (g'.permits e' r' p).outcome ≠ .ok false                             (Follows.permits)

The second may come upon a fault where the first one stopped before it, so a layer is compared by
the answers that both give.  On a graph whose identifiers are texts there are no faults.
-/

namespace CloudAccess

open Condition (Evaluator)

/-! ## Going through the layers -/

section

variable {v : Layer → Run Fault Verdict} {gs rest : List Layer}

/-- A run through the layers ends without a fault only if the first layer answers. -/
theorem settle_answers {l : Layer} {d : Decision}
    (h : (Graph.settle v (l :: rest)).outcome = .ok d) :
    ∃ verdict, (v l).outcome = .ok verdict := by
  cases hv : (v l).outcome with
  | error f =>
    rw [Graph.settle, Traced.outcome_bind, hv] at h
    cases h
  | ok verdict => exact ⟨verdict, rfl⟩

theorem settle_through (h : ∀ l ∈ gs, (v l).outcome = .ok .notApplicable) :
    (Graph.settle v (gs ++ rest)).outcome = (Graph.settle v rest).outcome := by
  induction gs with
  | nil => rfl
  | cons g gs ih =>
    rw [List.cons_append, settle_skip (h g List.mem_cons_self)]
    exact ih fun l hl => h l (List.mem_cons_of_mem _ hl)

/-- A decision was reached past layers that never allow, unless one of them denied. -/
theorem through_of_ok {d : Decision} (hv : ∀ l ∈ gs, (v l).outcome ≠ .ok .allow)
    (hd : ∀ l ∈ gs, (v l).outcome = .ok .deny → d.allowed = true)
    (ho : (Graph.settle v (gs ++ rest)).outcome = .ok d) :
    ∀ l ∈ gs, (v l).outcome = .ok .notApplicable := by
  induction gs with
  | nil => exact fun l hl => absurd hl List.not_mem_nil
  | cons g gs ih =>
    obtain ⟨verdict, hg⟩ := settle_answers ho
    cases verdict with
    | allow => exact absurd hg (hv g List.mem_cons_self)
    | deny =>
      have ha : d.allowed = true := hd g List.mem_cons_self hg
      rw [List.cons_append, settle_deny hg] at ho
      cases ho
      cases ha
    | notApplicable =>
      rw [List.cons_append, settle_skip hg] at ho
      exact List.forall_mem_cons.2 ⟨hg, ih (fun l hl => hv l (List.mem_cons_of_mem _ hl))
        (fun l hl => hd l (List.mem_cons_of_mem _ hl)) ho⟩

end

/-- A scan that found something cannot come to find nothing, though it may come upon a fault. -/
theorem anyPasses_ne_false {α : Type} {test test' : α → Except Fault Bool}
    (h : ∀ a, test a = .ok true → test' a ≠ .ok false) {l : List α}
    (hl : anyPasses test l = .ok true) : anyPasses test' l ≠ .ok false := by
  intro hl'
  obtain ⟨a, ha, htest⟩ := exists_of_anyPasses hl
  exact h a htest (anyPasses_eq_false_iff.1 hl' a ha)

/-- A layer that asks whether something is found. -/
theorem outcome_found {run : Run Fault Bool} {o : Except Fault Bool} (h : run.outcome = o)
    (yes no : Verdict) :
    (do let hit ← run; return if hit then yes else no : Run Fault Verdict).outcome =
      o.map fun hit => if hit then yes else no := by
  rw [Traced.outcome_bind, h]
  cases o <;> rfl

namespace Graph

/-! ## What single layers answer -/

section

variable (g : Graph) (e : Evaluator) (r : Request) (p : String)

theorem guard_layer_ne_allow {l : Layer} (hl : l ∈ Layer.guards) :
    (g.ownVerdict e r p l).outcome ≠ .ok .allow := by
  cases l with
  | organization =>
    simp only [ownVerdict]
    split
    · exact nofun
    · exact Guard.verdict_ne_allow e r _ _
  | boundary =>
    simp only [ownVerdict]
    split
    · exact nofun
    · exact Guard.verdict_ne_allow e r _ _
  | session =>
    simp only [ownVerdict]
    split
    · exact nofun
    · exact Guard.verdict_ne_allow e r _ _
  | denials =>
    simp only [ownVerdict, Traced.outcome_bind]
    cases (g.deniedToAny e r p (.str p :: g.groupsOf p)).outcome with
    | error f => exact nofun
    | ok hit => cases hit <;> exact nofun
  | grants => exact absurd hl (by decide)
  | groups => exact absurd hl (by decide)

theorem denials_outcome : (g.ownVerdict e r p .denials).outcome =
    (anyPasses (g.deniesOwner e r) (.str p :: g.groupsOf p)).map
      fun hit => if hit then .deny else .notApplicable :=
  outcome_found (deniedToAny_outcome ..) .deny .notApplicable

theorem grants_outcome : (g.ownVerdict e r p .grants).outcome =
    (anyPasses (Edge.allows e r) (g.allows.concerning p r.action)).map
      fun hit => if hit then .allow else .notApplicable :=
  outcome_found (allowedBy_outcome ..) .allow .notApplicable

theorem groups_outcome : (g.verdict e r p .groups).outcome =
    (anyPasses (g.grantsGroup e r) (g.groupsOf p)).map
      fun hit => if hit then .allow else .notApplicable :=
  outcome_found (grantedToAny_outcome ..) .allow .notApplicable

end

/-- A layer that answers whether something was found. -/
theorem map_found {o : Except Fault Bool} {yes no v : Verdict}
    (h : o.map (fun hit => if hit then yes else no) = .ok v) :
    (o = .ok true ∧ v = yes) ∨ (o = .ok false ∧ v = no) := by
  obtain ⟨hit, rfl, rfl⟩ := map_eq_ok h
  cases hit with
  | true => exact .inl ⟨rfl, rfl⟩
  | false => exact .inr ⟨rfl, rfl⟩

/-- A permitted request is one of a principal named by a text, with a decision that allows it. -/
theorem permits_ok {g : Graph} {e : Evaluator} {r : Request} {p : Json} {b : Bool}
    (ho : (g.permits e r p).outcome = .ok b) :
    ∃ name d, p = .str name ∧ (g.decide e r name).outcome = .ok d ∧ d.allowed = b := by
  unfold permits decision at ho
  simp only [Traced.outcome_bind, Traced.outcome_ofExcept] at ho
  obtain ⟨d, hdecision, ha⟩ := bind_eq_ok ho
  obtain ⟨name, hn, hrun⟩ := bind_eq_ok hdecision
  obtain ⟨d', hd, hnoted⟩ := bind_eq_ok hrun
  obtain rfl : d' = d := Except.ok.inj hnoted
  cases p with
  | str s =>
    obtain rfl : s = name := Except.ok.inj hn
    exact ⟨s, d', rfl, hd, Except.ok.inj ha⟩
  | _ => cases hn

/-! ## One decision after another -/

/-- No layer of the second graph is stricter than on the first: none that guards comes to deny
and no own allow is lost. -/
structure Follows (g : Graph) (e : Evaluator) (r : Request) (g' : Graph) (e' : Evaluator)
    (r' : Request) : Prop where
  groups : ∀ p, g'.groupsOf p = g.groupsOf p
  guards : ∀ p, ∀ l ∈ Layer.guards, (g.ownVerdict e r p l).outcome = .ok .notApplicable →
    (g'.ownVerdict e' r' p l).outcome ≠ .ok .deny
  grants : ∀ p, (g.ownVerdict e r p .grants).outcome = .ok .allow →
    (g'.ownVerdict e' r' p .grants).outcome ≠ .ok .notApplicable

namespace Follows

variable {g g' : Graph} {e e' : Evaluator} {r r' : Request} {p : String} {d d' : Decision}

/-- A run that allows got through the guarding layers, and so did the second one if it reached a
decision; both go on with the layers after them. -/
theorem past_guards (h : Follows g e r g' e' r') {v v' : Layer → Run Fault Verdict}
    {rest : List Layer} (hv : ∀ l ∈ Layer.guards, v l = g.ownVerdict e r p l)
    (hv' : ∀ l ∈ Layer.guards, v' l = g'.ownVerdict e' r' p l)
    (ho : (settle v (Layer.guards ++ rest)).outcome = .ok d) (hd : d.allowed = true)
    (ho' : (settle v' (Layer.guards ++ rest)).outcome = .ok d') :
    (settle v rest).outcome = .ok d ∧ (settle v' rest).outcome = .ok d' := by
  have hpast : ∀ l ∈ Layer.guards, (v l).outcome = .ok .notApplicable := by
    refine through_of_ok (fun l hl => ?_) (fun _ _ _ => hd) ho
    rw [hv l hl]
    exact guard_layer_ne_allow g e r p hl
  have hpast' : ∀ l ∈ Layer.guards, (v' l).outcome = .ok .notApplicable := by
    refine through_of_ok (fun l hl => ?_) (fun l hl hdeny => ?_) ho'
    · rw [hv' l hl]
      exact guard_layer_ne_allow g' e' r' p hl
    · have hthrough := hpast l hl
      rw [hv l hl] at hthrough
      rw [hv' l hl] at hdeny
      exact absurd hdeny (h.guards p l hl hthrough)
  exact ⟨by rw [← settle_through hpast, ho], by rw [← settle_through hpast', ho']⟩

/-- Where both answer for the own grants, the second allows if the first does. -/
theorem own_grants (h : Follows g e r g' e' r')
    (ho : (g.ownVerdict e r p .grants).outcome = .ok .allow) {verdict : Verdict}
    (ho' : (g'.ownVerdict e' r' p .grants).outcome = .ok verdict) : verdict = .allow := by
  have hne := h.grants p ho
  have hfound := ho'
  rw [grants_outcome] at hfound
  rcases map_found hfound with ⟨-, rfl⟩ | ⟨-, rfl⟩
  · rfl
  · exact absurd ho' hne

/-- A group that is granted the request in its own right is not refused it. -/
theorem grantsGroup_ne_false (h : Follows g e r g' e' r') {group : Json}
    (ho : g.grantsGroup e r group = .ok true) : g'.grantsGroup e' r' group ≠ .ok false := by
  have hown : Layer.own = Layer.guards ++ [.grants] := rfl
  intro ho'
  unfold grantsGroup at ho ho'
  obtain ⟨name, hn, ho⟩ := bind_eq_ok ho
  rw [hn, ok_bind] at ho'
  obtain ⟨d, hs, hd⟩ := bind_eq_ok ho
  obtain ⟨d', hs', hd'⟩ := bind_eq_ok ho'
  replace hd : d.allowed = true := Except.ok.inj hd
  replace hd' : d'.allowed = false := Except.ok.inj hd'
  rw [hown] at hs hs'
  obtain ⟨hs, hs'⟩ := h.past_guards (fun _ _ => rfl) (fun _ _ => rfl) hs hd hs'
  obtain ⟨verdict, hv⟩ := settle_answers hs
  obtain ⟨verdict', hv'⟩ := settle_answers hs'
  have hallow : verdict = .allow := by
    have hfound := hv
    rw [grants_outcome] at hfound
    rcases map_found hfound with ⟨-, rfl⟩ | ⟨-, rfl⟩
    · rfl
    · rw [settle_skip hv] at hs
      cases hs
      cases hd
  subst hallow
  rw [h.own_grants hv hv'] at hv'
  rw [settle_allow hv'] at hs'
  cases hs'
  cases hd'

/-- A decision that allows is followed by one that allows, or by a fault. -/
theorem decide (h : Follows g e r g' e' r') (ho : (g.decide e r p).outcome = .ok d)
    (hd : d.allowed = true) (ho' : (g'.decide e' r' p).outcome = .ok d') : d'.allowed = true := by
  have hall : Layer.all = Layer.guards ++ [.grants, .groups] := rfl
  unfold Graph.decide at ho ho'
  rw [hall] at ho ho'
  obtain ⟨hs, hs'⟩ := h.past_guards (fun l hl => verdict_of_guard hl)
    (fun l hl => verdict_of_guard hl) ho hd ho'
  obtain ⟨verdict, hv⟩ := settle_answers hs
  obtain ⟨verdict', hv'⟩ := settle_answers hs'
  have hfound' : (g'.ownVerdict e' r' p .grants).outcome = .ok verdict' := hv'
  rw [grants_outcome] at hfound'
  rcases map_found hfound' with ⟨-, rfl⟩ | ⟨-, rfl⟩
  · rw [settle_allow hv'] at hs'
    cases hs'
    rfl
  · -- the second has no own allow, so the allow of the first came from a group
    have hfound : (g.ownVerdict e r p .grants).outcome = .ok verdict := hv
    rw [grants_outcome] at hfound
    rcases map_found hfound with ⟨-, rfl⟩ | ⟨-, rfl⟩
    · cases h.own_grants hv hv'
    rw [settle_skip hv] at hs
    rw [settle_skip hv'] at hs'
    obtain ⟨verdict, hg⟩ := settle_answers hs
    obtain ⟨verdict', hg'⟩ := settle_answers hs'
    have hgroups := hg
    have hgroups' := hg'
    rw [groups_outcome] at hgroups hgroups'
    rw [h.groups] at hgroups'
    rcases map_found hgroups with ⟨hscan, rfl⟩ | ⟨-, rfl⟩
    · rcases map_found hgroups' with ⟨-, rfl⟩ | ⟨hscan', rfl⟩
      · rw [settle_allow hg'] at hs'
        cases hs'
        rfl
      · exact absurd hscan' (anyPasses_ne_false (fun group => h.grantsGroup_ne_false) hscan)
    · rw [settle_skip hg] at hs
      cases hs
      cases hd

/-- What is permitted is not refused by what follows. -/
theorem permits (h : Follows g e r g' e' r') {p : Json}
    (ho : (g.permits e r p).outcome = .ok true) : (g'.permits e' r' p).outcome ≠ .ok false := by
  intro ho'
  obtain ⟨name, d, rfl, hd, ha⟩ := permits_ok ho
  obtain ⟨name', d', hn, hd', ha'⟩ := permits_ok ho'
  obtain rfl := Json.str.inj hn
  rw [h.decide hd ha hd'] at ha'
  cases ha'

end Follows

end Graph
end CloudAccess
