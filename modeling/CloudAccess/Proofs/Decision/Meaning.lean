import CloudAccess.Proofs.Decision.Basis
import CloudAccess.Proofs.Decision.Scans

/-!
# The meaning of a decision

On a graph whose identifiers are texts a decision is always reached, and it is the one that the
basis of the graph leads to:

    g.Textual → ∃ d, (g.decision …).outcome = .ok d ∧ (g.basis x).Settles x p d  (decision_settles)

Each scan and each layer is described alone, as something that gives one answer when a property
holds and another one when it does not (`Splits`); `settle_guards` goes through the layers.
-/

namespace CloudAccess

open Condition (Evaluator)

/-- There is no fault, and one answer if something holds, another one if not. -/
def Splits {ε α : Type} (o : Except ε α) (P : Prop) (yes no : α) : Prop :=
  (P ∧ o = .ok yes) ∨ (¬ P ∧ o = .ok no)

namespace Splits

variable {ε α β : Type} {o : Except ε α} {P Q : Prop} {yes no : α}

theorem congr (h : Splits o P yes no) (hpq : P ↔ Q) : Splits o Q yes no := by
  rwa [← propext hpq]

theorem bind {f : α → Except ε β} {yes' no' : β} (h : Splits o P yes no)
    (hyes : f yes = .ok yes') (hno : f no = .ok no') : Splits (o >>= f) P yes' no' := by
  rcases h with ⟨hp, rfl⟩ | ⟨hp, rfl⟩
  · exact .inl ⟨hp, hyes⟩
  · exact .inr ⟨hp, hno⟩

theorem of_bool (b : Bool) : Splits (.ok b : Except ε Bool) (b = true) true false := by
  cases b
  · exact .inr ⟨Bool.false_ne_true, rfl⟩
  · exact .inl ⟨rfl, rfl⟩

theorem map_and {o : Except ε Bool} (h : Splits o P true false) (b : Bool) :
    Splits (o.map (· && b)) (P ∧ b = true) true false := by
  rcases h with ⟨hp, rfl⟩ | ⟨hp, rfl⟩
  · cases b
    · exact .inr ⟨fun h => absurd h.2 Bool.false_ne_true, rfl⟩
    · exact .inl ⟨⟨hp, rfl⟩, rfl⟩
  · exact .inr ⟨fun h => hp h.1, rfl⟩

end Splits

theorem anyPasses_splits {α : Type} {test : α → Except Fault Bool} {P : α → Prop} {l : List α}
    (h : ∀ a ∈ l, Splits (test a) (P a) true false) :
    Splits (anyPasses test l) (∃ a ∈ l, P a) true false := by
  induction l with
  | nil => exact .inr ⟨by simp, rfl⟩
  | cons a rest ih =>
    rw [anyPasses]
    rcases h a List.mem_cons_self with ⟨hp, ho⟩ | ⟨hp, ho⟩
    · rw [ho]
      exact .inl ⟨⟨a, List.mem_cons_self, hp⟩, rfl⟩
    · rw [ho]
      refine (ih fun b hb => h b (List.mem_cons_of_mem _ hb)).congr ?_
      simp [hp]

/-! ## Statements and edges -/

theorem surely_iff (o : Except String Bool) : surely o = true ↔ o = .ok true := by
  cases o with
  | error reason => simp [surely]
  | ok b => simp [surely]

theorem perhaps_iff (o : Except String Bool) : perhaps o = true ↔ o ≠ .ok false := by
  cases o with
  | error reason => simp [perhaps]
  | ok b => cases b <;> simp [perhaps]

namespace Setting

variable (x : Setting)

theorem concerns_request (s : Statement) :
    Splits (s.concerns x.request) (x.Matches s.actions s.resources) true false := by
  have hr : Splits (anyPasses (fun q => covers (.str q) x.request.resource) s.resources)
      (∃ q ∈ s.resources, resourceMatches q x.target = true) true false :=
    anyPasses_splits fun q _ => Splits.of_bool _
  unfold Statement.concerns Matches
  split
  · next ha =>
    refine hr.congr ?_
    rw [List.any_eq_true] at ha
    exact ⟨fun h => ⟨ha, h⟩, fun h => h.2⟩
  · next ha =>
    rw [List.any_eq_true] at ha
    exact .inr ⟨fun h => ha h.1, rfl⟩

theorem allows_request (s : Statement) :
    Splits (s.allows x.evaluator x.request) (x.AllowedBy s) true false := by
  unfold Statement.allows AllowedBy Statement.isAllow
  by_cases he : s.effect = "Allow"
  · rw [if_pos (by simpa using he)]
    refine ((x.concerns_request s).map_and _).congr ?_
    rw [surely_iff]
    exact ⟨fun h => ⟨he, h⟩, fun h => h.2⟩
  · rw [if_neg (by simpa using he)]
    exact .inr ⟨fun h => he h.1, rfl⟩

theorem denies_request (s : Statement) :
    Splits (s.denies x.evaluator x.request) (x.DeniedBy s) true false := by
  unfold Statement.denies DeniedBy Statement.isDeny
  by_cases he : s.effect = "Deny"
  · rw [if_pos (by simpa using he)]
    refine ((x.concerns_request s).map_and _).congr ?_
    rw [perhaps_iff]
    exact ⟨fun h => ⟨he, h⟩, fun h => h.2⟩
  · rw [if_neg (by simpa using he)]
    exact .inr ⟨fun h => he h.1, rfl⟩

/-- A guarding layer lets the request through exactly when its statements do. -/
theorem guard_verdict (guard : Guard) (ss : List Statement) :
    Splits (guard.verdict x.evaluator x.request ss).outcome (x.Passes ss) .notApplicable .deny := by
  rw [Guard.verdict_outcome]
  unfold Passes
  rcases anyPasses_splits fun s (_ : s ∈ ss) => x.allows_request s with ⟨ha, ho⟩ | ⟨ha, ho⟩
  · rw [ho]
    rcases anyPasses_splits fun s (_ : s ∈ ss) => x.denies_request s with ⟨hd, ho'⟩ | ⟨hd, ho'⟩
    · simp only [ok_bind, if_true, ho']
      refine .inr ⟨fun h => ?_, rfl⟩
      obtain ⟨s, hs, hds⟩ := hd
      exact h.2 s hs hds
    · simp only [ok_bind, if_true, ho']
      exact .inl ⟨⟨ha, fun s hs hds => hd ⟨s, hs, hds⟩⟩, rfl⟩
  · rw [ho]
    exact .inr ⟨fun h => ha h.1, rfl⟩

/-- A layer whose policy may be missing lets the request through when it is. -/
theorem guard_optional (guard : Guard) (o : Option Document) :
    Splits
      (match o with
        | none => (pure .notApplicable : Run Fault Verdict)
        | some d => guard.verdict x.evaluator x.request d.statements).outcome
      (∀ d, o = some d → x.Passes d.statements) .notApplicable .deny := by
  cases o with
  | none => exact .inl ⟨fun d hd => (Option.some_ne_none d hd.symm).elim, rfl⟩
  | some d =>
    refine (x.guard_verdict guard d.statements).congr ⟨fun hp d' hd => ?_, fun hp => hp d rfl⟩
    rwa [← Option.some.inj hd]

theorem covers_request {e : Edge} (h : ∃ q, e.pattern = .str q) :
    Splits (covers e.pattern x.request.resource)
      (∃ q, e.pattern = .str q ∧ resourceMatches q x.target = true) true false := by
  obtain ⟨q, hq⟩ := h
  rw [hq]
  refine (Splits.of_bool _).congr ?_
  simp

end Setting

/-! ## Layers -/

theorem mem_textsOf (items : List Json) (t : String) : t ∈ Json.textsOf items ↔ .str t ∈ items := by
  unfold Json.textsOf
  rw [List.mem_filterMap]
  constructor
  · rintro ⟨v, hv, hs⟩
    cases v <;> simp at hs
    rw [← hs]
    exact hv
  · intro h
    exact ⟨.str t, h, rfl⟩

namespace Graph

variable {g : Graph} (hg : g.Textual) (x : Setting)

include hg

/-- The groups of a principal are texts. -/
theorem groupsOf_textual {p : String} {v : Json} (hv : v ∈ g.groupsOf p) :
    ∃ q, v = .str q ∧ q ∈ (g.basis x).groups p := by
  have ht : ∃ q, v = .str q := by
    unfold groupsOf at hv
    split at hv
    · next P hP => exact hg.groups P (OrderedMap.mem_values_of_get? hP) v hv
    · exact absurd hv List.not_mem_nil
  obtain ⟨q, rfl⟩ := ht
  exact ⟨q, rfl, (mem_textsOf _ _).2 hv⟩

omit hg in
/-- A scan of an owner's edges finds one exactly when the owner has one that applies; only the
patterns of this owner have to be texts. -/
theorem edges_splits (deny : Bool) (owner : Identifier) (judge : Except String Bool → Bool)
    (hpatterns : ∀ a e, g.Holds deny owner a e → ∃ q, e.pattern = .str q) :
    Splits
      (anyPasses (fun e => (covers e.pattern x.request.resource).map
        (· && judge (x.answer e.conditions))) ((g.index deny).concerning owner x.action))
      (∃ a e, g.Holds deny owner a e ∧ x.Meets a e ∧ judge (x.answer e.conditions) = true)
      true false := by
  have h : ∀ e ∈ (g.index deny).concerning owner x.action,
      Splits ((covers e.pattern x.request.resource).map (· && judge (x.answer e.conditions)))
        ((∃ q, e.pattern = .str q ∧ resourceMatches q x.target = true) ∧
          judge (x.answer e.conditions) = true) true false := by
    intro e he
    obtain ⟨a, ha, -⟩ := (EdgeIndex.mem_concerning _ _ _ _).1 he
    exact (x.covers_request (hpatterns a e ha)).map_and _
  refine (anyPasses_splits h).congr ?_
  constructor
  · rintro ⟨e, he, hc, hj⟩
    obtain ⟨a, ha, hm⟩ := (EdgeIndex.mem_concerning _ _ _ _).1 he
    exact ⟨a, e, ha, ⟨hm, hc⟩, hj⟩
  · rintro ⟨a, e, ha, ⟨hm, hc⟩, hj⟩
    exact ⟨e, (EdgeIndex.mem_concerning _ _ _ _).2 ⟨a, ha, hm⟩, hc, hj⟩

theorem deniesOwner_splits (q : String) :
    Splits (g.deniesOwner x.evaluator x.request (.str q)) ((g.basis x).denies q) true false := by
  unfold deniesOwner
  rw [Identifier.ofJson_str, ok_bind]
  refine (edges_splits x true q perhaps (hg.patterns true q)).congr ?_
  simp only [perhaps_iff]
  rfl

/-- The layer of own grants allows exactly what an own allow edge does. -/
theorem grants_verdict (p : String) :
    Splits (g.ownVerdict x.evaluator x.request p .grants).outcome ((g.basis x).allows p)
      .allow .notApplicable := by
  unfold ownVerdict
  rw [Traced.outcome_bind, allowedBy_outcome]
  refine Splits.bind ((edges_splits x false p surely (hg.patterns false p)).congr ?_) rfl rfl
  simp only [surely_iff]
  rfl

/-- The layer of denials denies exactly what a deny edge of the principal or of a group does. -/
theorem denials_verdict (p : String) :
    Splits (g.ownVerdict x.evaluator x.request p .denials).outcome
      ((g.basis x).Lets x p .denials) .notApplicable .deny := by
  have hown : ∀ v ∈ Json.str p :: g.groupsOf p,
      Splits (g.deniesOwner x.evaluator x.request v) (∃ q, v = .str q ∧ (g.basis x).denies q)
        true false := by
    intro v hv
    have hq : ∃ q, v = .str q := by
      rcases List.mem_cons.1 hv with rfl | hv
      · exact ⟨p, rfl⟩
      · obtain ⟨q, hq, -⟩ := groupsOf_textual hg x hv
        exact ⟨q, hq⟩
    obtain ⟨q, rfl⟩ := hq
    refine (deniesOwner_splits hg x q).congr ⟨fun h => ⟨q, rfl, h⟩, ?_⟩
    rintro ⟨q', hq', h⟩
    rwa [Json.str.inj hq']
  show Splits (g.deniedToAny x.evaluator x.request p (.str p :: g.groupsOf p) >>= _).outcome
    (¬ (g.basis x).denies p ∧ ∀ q ∈ (g.basis x).groups p, ¬ (g.basis x).denies q) _ _
  rw [Traced.outcome_bind, deniedToAny_outcome]
  rcases anyPasses_splits hown with ⟨h, ho⟩ | ⟨h, ho⟩
  · rw [ho]
    refine .inr ⟨fun hn => ?_, rfl⟩
    obtain ⟨v, hv, q, rfl, hd⟩ := h
    rcases List.mem_cons.1 hv with he | hv
    · exact hn.1 (Json.str.inj he ▸ hd)
    · exact hn.2 q ((mem_textsOf _ _).2 hv) hd
  · rw [ho]
    refine .inl ⟨⟨fun hd => h ⟨.str p, List.mem_cons_self, p, rfl, hd⟩, fun q hq hd => ?_⟩, rfl⟩
    exact h ⟨.str q, List.mem_cons_of_mem _ ((mem_textsOf _ _).1 hq), q, rfl, hd⟩

omit hg in
theorem organization_verdict (p : String) :
    Splits (g.ownVerdict x.evaluator x.request p .organization).outcome
      ((g.basis x).Lets x p .organization) .notApplicable .deny := by
  show Splits
    (if Arn.isAccountRoot p || g.guardrails.isEmpty then _ else _ : Run Fault Verdict).outcome
    (Arn.isAccountRoot p = true ∨ g.guardrails = [] ∨
      x.Passes (g.guardrails.flatMap Document.statements)) _ _
  split
  · next h =>
    rw [Bool.or_eq_true, List.isEmpty_iff] at h
    exact .inl ⟨h.imp_right .inl, rfl⟩
  · next h =>
    rw [Bool.or_eq_true, List.isEmpty_iff, not_or] at h
    refine (x.guard_verdict _ _).congr ⟨fun hp => .inr (.inr hp), ?_⟩
    rintro (hr | he | hp)
    · exact absurd hr h.1
    · exact absurd he h.2
    · exact hp

/-- A guarding layer denies exactly what it does not let through. -/
theorem guard_layer_verdict (p : String) {l : Layer} (hl : l ∈ Layer.guards) :
    Splits (g.ownVerdict x.evaluator x.request p l).outcome ((g.basis x).Lets x p l)
      .notApplicable .deny := by
  cases l with
  | organization => exact organization_verdict x p
  | boundary => exact x.guard_optional .boundary ((g.principal? p).bind Principal.boundary)
  | session => exact x.guard_optional .session x.context.session
  | denials => exact denials_verdict hg x p
  | grants => exact absurd hl (by decide)
  | groups => exact absurd hl (by decide)

end Graph

/-! ## Going through the layers -/

section

variable {v : Layer → Run Fault Verdict} {l : Layer} {rest : List Layer}

theorem settle_of_verdict {verdict : Verdict} (h : (v l).outcome = .ok verdict) :
    (Graph.settle v (l :: rest)).outcome = match verdict with
      | .allow => .ok ⟨true, some l⟩
      | .deny => .ok ⟨false, some l⟩
      | .notApplicable => (Graph.settle v rest).outcome := by
  rw [Graph.settle, Traced.outcome_bind]
  cases verdict <;> simp only [h] <;> rfl

theorem settle_deny (h : (v l).outcome = .ok .deny) :
    (Graph.settle v (l :: rest)).outcome = .ok ⟨false, some l⟩ := settle_of_verdict h

theorem settle_allow (h : (v l).outcome = .ok .allow) :
    (Graph.settle v (l :: rest)).outcome = .ok ⟨true, some l⟩ := settle_of_verdict h

theorem settle_skip (h : (v l).outcome = .ok .notApplicable) :
    (Graph.settle v (l :: rest)).outcome = (Graph.settle v rest).outcome := settle_of_verdict h

/-- Either all guarding layers let a request through, or the first that does not denies it. -/
theorem settle_guards {P : Layer → Prop} (gs rest : List Layer)
    (h : ∀ l ∈ gs, Splits (v l).outcome (P l) .notApplicable .deny) :
    ((∀ l ∈ gs, P l) ∧ (Graph.settle v (gs ++ rest)).outcome = (Graph.settle v rest).outcome) ∨
      ∃ before l after, gs = before ++ l :: after ∧ (∀ k ∈ before, P k) ∧ ¬ P l ∧
        (Graph.settle v (gs ++ rest)).outcome = .ok ⟨false, some l⟩ := by
  induction gs with
  | nil => exact .inl ⟨fun l hl => absurd hl List.not_mem_nil, rfl⟩
  | cons g gs ih =>
    rcases h g List.mem_cons_self with ⟨hp, ho⟩ | ⟨hp, ho⟩
    · rw [List.cons_append, settle_skip ho]
      rcases ih fun l hl => h l (List.mem_cons_of_mem _ hl) with
        ⟨hall, hs⟩ | ⟨before, l, after, rfl, hb, hl, hs⟩
      · exact .inl ⟨List.forall_mem_cons.2 ⟨hp, hall⟩, hs⟩
      · exact .inr ⟨g :: before, l, after, rfl, List.forall_mem_cons.2 ⟨hp, hb⟩, hl, hs⟩
    · exact .inr ⟨[], g, gs, rfl, fun k hk => absurd hk List.not_mem_nil, hp, settle_deny ho⟩

end

namespace Graph

variable {g : Graph}

theorem verdict_of_guard {e : Evaluator} {r : Request} {p : String} {l : Layer}
    (hl : l ∈ Layer.guards) : g.verdict e r p l = g.ownVerdict e r p l := by
  cases l <;> first | rfl | exact absurd hl (by decide)

variable (hg : g.Textual) (x : Setting)

include hg

/-- A group is found to be granted the request exactly when it is clear and allowed itself. -/
theorem grantsGroup_splits (q : String) :
    Splits (g.grantsGroup x.evaluator x.request (.str q))
      ((g.basis x).Clear x q ∧ (g.basis x).allows q) true false := by
  show Splits ((settle (g.ownVerdict x.evaluator x.request q) (Layer.guards ++ [.grants])).outcome
    >>= fun d => pure d.allowed) _ _ _
  rcases settle_guards Layer.guards [.grants] (fun l hl => guard_layer_verdict hg x q hl) with
    ⟨hc, hs⟩ | ⟨before, l, after, hl, -, hn, hs⟩
  · rw [hs]
    rcases grants_verdict hg x q with ⟨ha, ho⟩ | ⟨ha, ho⟩
    · rw [settle_allow ho]
      exact .inl ⟨⟨hc, ha⟩, rfl⟩
    · rw [settle_skip ho]
      exact .inr ⟨fun h => ha h.2, rfl⟩
  · rw [hs]
    refine .inr ⟨fun h => hn (h.1 l ?_), rfl⟩
    rw [hl]
    simp

/-- A scan of the groups finds one exactly when the request can be inherited. -/
theorem inherits_splits (p : String) :
    Splits (anyPasses (g.grantsGroup x.evaluator x.request) (g.groupsOf p))
      ((g.basis x).Inherits x p) true false := by
  have hgroup : ∀ v ∈ g.groupsOf p, Splits (g.grantsGroup x.evaluator x.request v)
      (∃ q, v = .str q ∧ (g.basis x).Clear x q ∧ (g.basis x).allows q) true false := by
    intro v hv
    obtain ⟨q, rfl, -⟩ := groupsOf_textual hg x hv
    refine (grantsGroup_splits hg x q).congr ⟨fun h => ⟨q, rfl, h⟩, ?_⟩
    rintro ⟨q', hq', h⟩
    rwa [Json.str.inj hq']
  refine (anyPasses_splits hgroup).congr ?_
  constructor
  · rintro ⟨v, hv, q, rfl, h⟩
    exact ⟨q, (mem_textsOf _ _).2 hv, h⟩
  · rintro ⟨q, hq, h⟩
    exact ⟨.str q, (mem_textsOf _ _).1 hq, q, rfl, h⟩

/-- The layer of groups allows exactly what some group is granted. -/
theorem groups_verdict (p : String) :
    Splits (g.verdict x.evaluator x.request p .groups).outcome ((g.basis x).Inherits x p)
      .allow .notApplicable := by
  show Splits (g.grantedToAny x.evaluator x.request p (g.groupsOf p) >>= _).outcome _ _ _
  rw [Traced.outcome_bind, grantedToAny_outcome]
  exact (inherits_splits hg x p).bind rfl rfl

/-- The decision that is reached is the one that the basis leads to. -/
theorem decide_settles (p : String) :
    ∃ d, (g.decide x.evaluator x.request p).outcome = .ok d ∧ (g.basis x).Settles x p d := by
  show ∃ d, (settle (g.verdict x.evaluator x.request p)
    (Layer.guards ++ [.grants, .groups])).outcome = .ok d ∧ _
  have hguard : ∀ l ∈ Layer.guards, Splits (g.verdict x.evaluator x.request p l).outcome
      ((g.basis x).Lets x p l) .notApplicable .deny := by
    intro l hl
    rw [verdict_of_guard hl]
    exact guard_layer_verdict hg x p hl
  rcases settle_guards Layer.guards [.grants, .groups] hguard with
    ⟨hc, hs⟩ | ⟨before, l, after, hl, hb, hn, hs⟩
  · rw [hs]
    have hgrants : Splits (g.verdict x.evaluator x.request p .grants).outcome
        ((g.basis x).allows p) .allow .notApplicable := grants_verdict hg x p
    rcases hgrants with ⟨ha, ho⟩ | ⟨ha, ho⟩
    · exact ⟨_, settle_allow ho, .granted hc ha⟩
    · rw [settle_skip ho]
      rcases groups_verdict hg x p with ⟨hi, ho'⟩ | ⟨hi, ho'⟩
      · exact ⟨_, settle_allow ho', .inherited hc ha hi⟩
      · exact ⟨_, by rw [settle_skip ho']; rfl, .implicit hc ha hi⟩
  · exact ⟨_, hs, .blocked before l after hl hb hn⟩

omit hg in
/-- Telling the log about a decision does not change it. -/
theorem decision_outcome (e : Evaluator) (r : Request) (p : String) :
    (g.decision e r (.str p)).outcome = (g.decide e r p).outcome := by
  unfold decision
  simp only [principalText, Traced.outcome_bind, Traced.outcome_ofExcept, ok_bind]
  cases (g.decide e r p).outcome <;> rfl

theorem decision_settles (p : String) :
    ∃ d, (g.decision x.evaluator x.request (.str p)).outcome = .ok d ∧
      (g.basis x).Settles x p d := by
  rw [decision_outcome]
  exact decide_settles hg x p

omit hg in
theorem permits_outcome (e : Evaluator) (r : Request) (p : Json) :
    (g.permits e r p).outcome = (g.decision e r p).outcome.map Decision.allowed := by
  unfold permits
  rw [Traced.outcome_bind]
  cases (g.decision e r p).outcome <;> rfl

/-- The answer that is reached is whether the basis permits the request. -/
theorem permits_splits (p : String) :
    Splits (g.permits x.evaluator x.request (.str p)).outcome ((g.basis x).Permits x p)
      true false := by
  obtain ⟨d, ho, hd⟩ := decision_settles hg x p
  rw [permits_outcome, ho]
  exact (Splits.of_bool d.allowed).congr hd.allowed_iff

omit hg

/-! ## Top theorem -/

/-- **The meaning of a decision.**  A request is allowed when no guarding layer blocks the
principal and it has an allow of its own, or one of its groups does that no guarding layer blocks
either.  The stage is the first layer that blocks, and else tells where the allow was found. -/
theorem decision_meaning {g : Graph} (hg : g.Textual) (x : Setting) (p : String) :
    ∃ d, (g.decision x.evaluator x.request (.str p)).outcome = .ok d ∧
      (d.allowed = true ↔ (g.basis x).Clear x p ∧ ((g.basis x).allows p ∨
        ∃ q ∈ (g.basis x).groups p, (g.basis x).Clear x q ∧ (g.basis x).allows q)) ∧
      (¬ (g.basis x).Lets x p .organization → d.layerName = "organization-guardrail") ∧
      ((g.basis x).Lets x p .organization → ¬ (g.basis x).Lets x p .boundary →
        d.layerName = "permission-boundary") ∧
      ((g.basis x).Lets x p .organization → (g.basis x).Lets x p .boundary →
        ¬ (g.basis x).Lets x p .session → d.layerName = "session-policy") ∧
      ((g.basis x).Lets x p .organization → (g.basis x).Lets x p .boundary →
        (g.basis x).Lets x p .session → ¬ (g.basis x).Lets x p .denials →
        d.layerName = "explicit-deny") ∧
      ((g.basis x).Clear x p → (g.basis x).allows p → d.layerName = "explicit-allow") ∧
      ((g.basis x).Clear x p → ¬ (g.basis x).allows p →
        (∃ q ∈ (g.basis x).groups p, (g.basis x).Clear x q ∧ (g.basis x).allows q) →
        d.layerName = "group-inheritance") ∧
      ((g.basis x).Clear x p → ¬ (g.basis x).allows p →
        (¬ ∃ q ∈ (g.basis x).groups p, (g.basis x).Clear x q ∧ (g.basis x).allows q) →
        d.layerName = "implicit-deny") := by
  obtain ⟨d, ho, hd⟩ := decision_settles hg x p
  have settled {d' : Decision} (h : (g.basis x).Settles x p d') : d.layerName = d'.layerName := by
    rw [hd.unique h]
  refine ⟨d, ho, hd.allowed_iff, fun h1 => ?_, fun h1 h2 => ?_, fun h1 h2 h3 => ?_,
    fun h1 h2 h3 h4 => ?_, fun hc ha => settled (.granted hc ha),
    fun hc ha hi => settled (.inherited hc ha hi), fun hc ha hi => settled (.implicit hc ha hi)⟩
  · exact settled (.blocked [] _ _ rfl (by simp) h1)
  · exact settled (.blocked [.organization] _ _ rfl (by simp [h1]) h2)
  · exact settled (.blocked [.organization, .boundary] _ _ rfl (by simp [h1, h2]) h3)
  · exact settled (.blocked [.organization, .boundary, .session] _ _ rfl
      (by simp [h1, h2, h3]) h4)

/-- A user with two groups. -/
def member : Principal where
  arn := .str "member"
  kind := .user
  name := ""
  account := ""
  policies := []
  trust := none
  boundary := none
  groups := [.str "staff", .str "guests"]

/-- One of a member's groups may do anything that the organization lets through. -/
def memberOfGroup : Graph :=
  let g := { empty with guardrails := [⟨[⟨"Allow", ["*"], ["*"], .null, .null, ""⟩], "", ""⟩] }
  let g := { g with principals := g.principals.insert "member" member }
  g.insertEdge "staff" "*" false ⟨.str "*", .null, ""⟩

theorem member_groups : ∀ q ∈ member.groups, ∃ a, q = .str a := by
  intro q hq
  simp only [member, List.mem_cons, List.not_mem_nil, or_false] at hq
  rcases hq with rfl | rfl
  · exact ⟨_, rfl⟩
  · exact ⟨_, rfl⟩

theorem memberOfGroup_textual : memberOfGroup.Textual := by
  have hm := (textual_empty [⟨[⟨"Allow", ["*"], ["*"], .null, .null, ""⟩], "", ""⟩]).insertPrincipal
    "member" ⟨"member", rfl⟩ member_groups
  exact hm.insertEdge "staff" "*" false ⟨"*", rfl⟩

/-- The member's group has the allow, so the request is permitted to the member. -/
theorem decision_meaning_memberOfGroup :
    let x : Setting := ⟨fun _ _ => .ok true, .empty, "read", "file"⟩
    memberOfGroup.Textual ∧
      (memberOfGroup.decision x.evaluator x.request (.str "member")).outcome =
        .ok ⟨true, some .groups⟩ ∧
      (memberOfGroup.basis x).Permits x "member" := by
  intro x
  have hrun : (memberOfGroup.decision x.evaluator x.request (.str "member")).outcome =
      .ok ⟨true, some .groups⟩ := by rfl
  obtain ⟨d, ho, hd, -⟩ := decision_meaning memberOfGroup_textual x "member"
  rw [hrun] at ho
  cases ho
  exact ⟨memberOfGroup_textual, hrun, hd.1 rfl⟩

end Graph
end CloudAccess
