import CloudAccess.Proofs.Graph.Appended
import CloudAccess.Proofs.Graph.History
import CloudAccess.Proofs.Graph.Loose
import CloudAccess.Proofs.OrderedMap
import CloudAccess.Proofs.Reach.Roles
import CloudAccess.WhatIf.Changes
import CloudAccess.WhatIf.Difference

/-!
# The direction of a change

A policy that is appended to a principal is compared with the graph before it: who held a
permission and who holds it now.  Statements that only allow take it from nobody, and those that
only deny give it to nobody, whoever inherits from that principal:

    (∀ st ∈ d.statements, st.effect ≠ "Deny") → diff.revoked = []
    (∀ st ∈ d.statements, st.effect = "Deny") → diff.granted = []          (difference_of_policy)

The two graphs are built side by side.  All the way they have the same principals apart from
their policies, and edges that differ by those of the new policy (`Graph.Supplements`).  So one of
them denies no more and allows no less than the other (`Eases`), and who holds a permission in the
one holds it in the other.
-/

namespace CloudAccess

open Condition (Evaluator)

/-- To append policies to the principals with a name. -/
def Changes.appending (p : String) (ds : List Document) : Changes :=
  { Changes.none with appendPolicies := OrderedMap.empty.insert p ds }

/-- A snapshot whose principals of a name have a policy more. -/
def Snapshot.withPolicy (s : Snapshot) (p : String) (d : Document) : Snapshot :=
  { s with principals := s.principals.map fun P =>
      if P.isNamed p then { P with policies := P.policies ++ [d] } else P }

/-- A principal without its policies. -/
def Principal.bare (P : Principal) : Principal := { P with policies := [] }

/-- The principals of a graph without their policies. -/
def Graph.roll (g : Graph) : OrderedMap Identifier Principal :=
  g.principals.mapValues Principal.bare

/-! ## The change -/

theorem Changes.policiesFor_appending (p : String) (d : Document) (P : Principal) :
    (appending p [d]).policiesFor P.arn = if P.isNamed p then [d] else [] := by
  unfold policiesFor Principal.isNamed
  cases P.arn with
  | str a =>
    show (OrderedMap.lookup a [(p, [d])]).getD [] = if decide (a = p) then [d] else []
    rw [OrderedMap.lookup]
    by_cases h : a = p
    · rw [if_pos (beq_iff_eq.2 h.symm), if_pos (decide_eq_true h)]
      rfl
    · rw [if_neg fun he => h (beq_iff_eq.1 he).symm, if_neg fun he => h (of_decide_eq_true he)]
      rfl
  | _ => rfl

theorem Changes.outcome_tell (ids : List String) : (apply.tell ids).outcome = .ok () := by
  induction ids with
  | nil => rfl
  | cons id rest ih => exact ih

/-- The change puts the policy after those of each principal with the name. -/
theorem apply_appending {s : Snapshot} (hp : ∀ P ∈ s.principals, ∃ a, P.arn = .str a) (p : String)
    (d : Document) : ((Changes.appending p [d]).apply s).outcome = .ok (s.withPolicy p d) := by
  have hidentified : ∃ ids, s.principals.mapM (fun P => Identifier.ofJson P.arn) = .ok ids := by
    refine mapM_ok fun P hP => ?_
    obtain ⟨a, ha⟩ := hp P hP
    exact ⟨.text a, by rw [ha]; rfl⟩
  obtain ⟨ids, hids⟩ := hidentified
  have happended : s.principals.map (Changes.appending p [d]).appendTo =
      (s.withPolicy p d).principals := by
    refine List.map_congr_left fun P _ => ?_
    unfold Changes.appendTo
    rw [Changes.policiesFor_appending]
    split
    · rfl
    · rw [List.append_nil]
  have hprincipals : s.principals ++ (Changes.appending p [d]).addPrincipals = s.principals :=
    List.append_nil _
  have hresources : s.resources ++ (Changes.appending p [d]).addResources = s.resources :=
    List.append_nil _
  unfold Changes.apply
  simp only [Traced.outcome_bind, Traced.outcome_ofExcept, hprincipals, hresources, happended,
    Changes.outcome_tell, hids, ok_bind]
  rfl

namespace Graph

/-! ## Graphs side by side -/

/-- A graph has the same principals as another one apart from their policies, and its edges, with
some more that come from statements of a policy. -/
structure Supplements (d : Document) (g g' : Graph) : Prop where
  guardrails : g'.guardrails = g.guardrails
  roll : g'.roll = g.roll
  keeps : ∀ deny o a e, g.Holds deny o a e → g'.Holds deny o a e
  gains : ∀ deny o a e, g'.Holds deny o a e →
    g.Holds deny o a e ∨ ∃ st ∈ d.statements, deny = st.isDeny

theorem roll_of_principals {g g' : Graph} (h : g'.principals = g.principals) :
    g'.roll = g.roll :=
  congrArg (OrderedMap.mapValues Principal.bare) h

theorem roll_insert (g : Graph) (id : Identifier) (P : Principal) :
    ({ g with principals := g.principals.insert id P } : Graph).roll = g.roll.insert id P.bare :=
  OrderedMap.mapValues_insert Principal.bare g.principals id P

section Roll

variable {g g' : Graph} (h : g'.roll = g.roll)

include h

theorem principal?_bare (p : Identifier) :
    (g'.principal? p).map Principal.bare = (g.principal? p).map Principal.bare := by
  unfold roll at h
  unfold principal?
  rw [← OrderedMap.get?_mapValues, ← OrderedMap.get?_mapValues, h]

/-- The same principals are there. -/
theorem exists_named {P : Principal} (hP : P ∈ g.principals.values) :
    ∃ P' ∈ g'.principals.values, P'.arn = P.arn := by
  have hvalues := congrArg OrderedMap.values h
  unfold roll at hvalues
  rw [OrderedMap.values_mapValues, OrderedMap.values_mapValues] at hvalues
  have hbare : P.bare ∈ g'.principals.values.map Principal.bare := by
    rw [hvalues]
    exact List.mem_map_of_mem hP
  obtain ⟨P', hP', he⟩ := List.mem_map.1 hbare
  exact ⟨P', hP', (Principal.mk.inj he).1⟩

/-- Only policies set the graphs apart, so their principals have the same guards and groups. -/
theorem alike_of_roll (hg : g'.guardrails = g.guardrails) : Alike g g' where
  guardrails := hg
  boundary p := by
    have hp := principal?_bare h p
    generalize g'.principal? p = o', g.principal? p = o at hp ⊢
    have hboundary := congrArg (Option.bind · Principal.boundary) hp
    rwa [Option.bind_map, Option.bind_map] at hboundary
  groups p := by
    have hp := principal?_bare h p
    unfold groupsOf
    generalize g'.principal? p = o', g.principal? p = o at hp ⊢
    have hgroups := congrArg (fun o : Option Principal => (o.map Principal.groups).getD []) hp
    cases o <;> cases o' <;> exact hgroups

end Roll

/-! ## Building side by side -/

variable {d : Document} {g g' k k' : Graph}

theorem supplements_refl (d : Document) (g : Graph) : Supplements d g g :=
  ⟨rfl, rfl, fun _ _ _ _ => id, fun _ _ _ _ => .inl⟩

/-- A principal that gets the policy, or does not. -/
theorem Supplements.addPrincipal (h : Supplements d g g') {P P' : Principal}
    (hbare : P'.bare = P.bare) (hkeep : ∀ doc ∈ P.policies, doc ∈ P'.policies)
    (hgain : ∀ doc ∈ P'.policies, doc ∈ P.policies ∨ doc = d)
    (ho : (g.addPrincipal P).outcome = .ok k) (ho' : (g'.addPrincipal P').outcome = .ok k') :
    Supplements d k k' := by
  have harn : P'.arn = P.arn := (Principal.mk.inj hbare).1
  rw [addPrincipal_outcome] at ho ho'
  rw [harn] at ho'
  obtain ⟨id, hid, rfl⟩ := map_eq_ok ho
  obtain ⟨id', hid', rfl⟩ := map_eq_ok ho'
  obtain rfl := Except.ok.inj (hid.symm.trans hid')
  let recorded : Graph := { g with principals := g.principals.insert id P }
  let recorded' : Graph := { g' with principals := g'.principals.insert id P' }
  obtain ⟨trust, ht⟩ := addTrustOf_eq (recorded.addIdentityPolicies id P.policies).1 id P
  obtain ⟨trust', ht'⟩ := addTrustOf_eq (recorded'.addIdentityPolicies id P'.policies).1 id P'
  have hadded := OnlyEdges.addIdentityPolicies recorded id P.policies
  have hadded' := OnlyEdges.addIdentityPolicies recorded' id P'.policies
  rw [ht, ht']
  refine ⟨?_, ?_, fun deny o a e hholds => ?_, fun deny o a e hholds => ?_⟩
  · exact hadded'.guardrails.trans (h.guardrails.trans hadded.guardrails.symm)
  · refine (roll_of_principals hadded'.principals).trans ?_
    refine Eq.trans ?_ (roll_of_principals hadded.principals).symm
    rw [roll_insert, roll_insert, h.roll, hbare]
  · refine (holds_addIdentityPolicies recorded' id o P'.policies deny a e).2 ?_
    rcases (holds_addIdentityPolicies recorded id o P.policies deny a e).1 hholds with
      hold | ⟨doc, hdoc, hmade⟩
    · exact .inl (h.keeps deny o a e hold)
    · exact .inr ⟨doc, hkeep doc hdoc, hmade⟩
  · rcases (holds_addIdentityPolicies recorded' id o P'.policies deny a e).1 hholds with
      hold | ⟨doc, hdoc, st, hst, howner, hmakes⟩
    · refine (h.gains deny o a e hold).imp_left fun hold => ?_
      exact (holds_addIdentityPolicies recorded id o P.policies deny a e).2 (.inl hold)
    · rcases hgain doc hdoc with hdoc | rfl
      · refine .inl ((holds_addIdentityPolicies recorded id o P.policies deny a e).2 ?_)
        exact .inr ⟨doc, hdoc, st, hst, howner, hmakes⟩
      · exact .inr ⟨st, hst, hmakes.1⟩

/-- The policy of a resource adds everyone to both graphs, or to neither. -/
theorem addResourceStatements_roll (resource : Json) (ss : List Statement)
    (h : g'.roll = g.roll) : (addResourceStatements resource ss g').1.roll =
      (addResourceStatements resource ss g).1.roll := by
  induction ss generalizing g g' with
  | nil => exact h
  | cons s rest ih =>
    have heveryone : (g'.ensureEveryone s).1.roll = (g.ensureEveryone s).1.roll := by
      have hthere : (g'.principal? Arn.anyone).isNone = (g.principal? Arn.anyone).isNone := by
        have hp := congrArg Option.isNone (principal?_bare h Arn.anyone)
        rwa [Option.isNone_map, Option.isNone_map] at hp
      unfold ensureEveryone
      rw [hthere]
      split
      · rw [roll_insert, roll_insert, h]
      · exact h
    unfold addResourceStatements
    cases confineTo resource s.resources with
    | mk outcome dropped =>
      cases outcome with
      | error f => exact h
      | ok patterns =>
        refine ih ?_
        rw [roll_of_principals (OnlyEdges.grant _ s patterns).principals,
          roll_of_principals (OnlyEdges.grant _ s patterns).principals, heveryone]

/-- The same resource on both sides. -/
theorem Supplements.addResource (h : Supplements d g g') {R : Resource}
    (ho : (g.addResource R).outcome = .ok k) (ho' : (g'.addResource R).outcome = .ok k') :
    Supplements d k k' := by
  have hadded := addResource_extends ho
  have hadded' := addResource_extends ho'
  refine ⟨?_, ?_, fun deny o a e hholds => ?_, fun deny o a e hholds => ?_⟩
  · exact hadded'.guardrails.trans (h.guardrails.trans hadded.guardrails.symm)
  · rw [addResource_outcome] at ho ho'
    obtain ⟨id, hid, ho⟩ := bind_eq_ok ho
    obtain ⟨id', hid', ho'⟩ := bind_eq_ok ho'
    obtain ⟨n, -, rfl⟩ := map_eq_ok ho
    obtain ⟨n', -, rfl⟩ := map_eq_ok ho'
    exact addResourceStatements_roll R.arn R.statements h.roll
  · refine (hadded'.edges deny o a e).2 ?_
    exact ((hadded.edges deny o a e).1 hholds).imp_left (h.keeps deny o a e)
  · rcases (hadded'.edges deny o a e).1 hholds with hold | hwrites
    · exact (h.gains deny o a e hold).imp_left fun hold => (hadded.edges deny o a e).2 (.inl hold)
    · exact .inl ((hadded.edges deny o a e).2 (.inr hwrites))

/-- The graph with the policy supplements the one without it. -/
theorem supplements_withPolicy {s : Snapshot} {p : String} (ho : (ofSnapshot s).outcome = .ok g)
    (ho' : (ofSnapshot (s.withPolicy p d)).outcome = .ok g') : Supplements d g g' := by
  obtain ⟨g₁, hp, hr⟩ := ofSnapshot_ok ho
  obtain ⟨g₁', hp', hr'⟩ := ofSnapshot_ok ho'
  have hprincipals : Supplements d g₁ g₁' := by
    refine foldlM_side_by_side (R := fun P P' => P' = if P.isNamed p then
      { P with policies := P.policies ++ [d] } else P) ?_ ?_ (supplements_refl d _) hp hp'
    · exact List.forall₂_map_right_iff.2 (List.forall₂_same.2 fun P _ => rfl)
    · rintro P P' g g' k k' rfl h ho ho'
      refine h.addPrincipal ?_ ?_ ?_ ho ho'
      · split <;> rfl
      · intro doc hdoc
        split
        · exact List.mem_append_left _ hdoc
        · exact hdoc
      · intro doc hdoc
        split at hdoc
        · exact (List.mem_append.1 hdoc).imp_right List.mem_singleton.1
        · exact .inl hdoc
  refine foldlM_side_by_side (R := Eq) (List.forall₂_eq_eq_eq ▸ rfl) ?_ hprincipals hr hr'
  rintro R _ g g' k k' rfl h ho ho'
  exact h.addResource ho ho'

/-! ## Who holds a permission -/

variable {ev : Evaluator} {c : Context} {resource : Json} {action : String}

theorem mem_of_holders {hs : List Principal}
    (ho : (g.holders ev c resource action).outcome = .ok hs) (P : Principal) :
    P ∈ hs ↔ P ∈ g.principals.values ∧
      (g.permits ev ⟨action, resource, c⟩ P.arn).outcome = .ok true := by
  unfold holders at ho
  generalize g.principals.values = all at ho ⊢
  induction all generalizing hs with
  | nil =>
    obtain rfl := Except.ok.inj ho
    simp
  | cons Q rest ih =>
    rw [holders.go, Traced.outcome_bind] at ho
    obtain ⟨ok, hQ, ho⟩ := bind_eq_ok ho
    rw [Traced.outcome_bind] at ho
    obtain ⟨others, hrest, ho⟩ := bind_eq_ok ho
    obtain rfl := Except.ok.inj ho
    rw [List.mem_cons, or_and_right, ← ih hrest]
    cases ok with
    | true =>
      rw [if_pos rfl, List.mem_cons]
      refine or_congr_left ⟨fun h => ⟨h, h ▸ hQ⟩, And.left⟩
    | false =>
      rw [if_neg Bool.false_ne_true]
      refine (or_iff_right ?_).symm
      rintro ⟨rfl, hok⟩
      rw [hQ] at hok
      cases hok

/-- A principal is permitted an action on a resource. -/
def allowed (g : Graph) (ev : Evaluator) (r : Request) (P : Principal) : Bool :=
  (g.permits ev r P.arn).outcome.toOption.getD false

theorem holders_textual (hg : g.Textual) (ev : Evaluator) (c : Context) (resource action : String) :
    (g.holders ev c (.str resource) action).outcome =
      .ok (g.principals.values.filter (g.allowed ev ⟨action, .str resource, c⟩)) := by
  have hasked : ∀ P ∈ g.principals.values,
      (g.permits ev ⟨action, .str resource, c⟩ P.arn).outcome =
        .ok (g.allowed ev ⟨action, .str resource, c⟩ P) := by
    intro P hP
    obtain ⟨a, ha⟩ := hg.arns P hP
    obtain ⟨b, hb⟩ :
        ∃ b, (g.permits ev ⟨action, .str resource, c⟩ (.str a)).outcome = .ok b := by
      rcases permits_splits hg ⟨ev, c, action, resource⟩ a with ⟨-, hv⟩ | ⟨-, hv⟩
      · exact ⟨true, hv⟩
      · exact ⟨false, hv⟩
    rw [allowed, ha, hb]
    rfl
  unfold holders
  generalize g.principals.values = all at hasked ⊢
  induction all with
  | nil => rfl
  | cons P rest ih =>
    obtain ⟨hP, hrest⟩ := List.forall_mem_cons.1 hasked
    rw [holders.go, Traced.outcome_bind, hP, ok_bind, Traced.outcome_bind, ih hrest, ok_bind,
      List.filter_cons]
    rfl

/-- Who holds a permission in one graph holds it in one that is no stricter and has the same
principals. -/
theorem holders_subset (hroll : g'.roll = g.roll) (h : Eases resource g g')
    {hs hs' : List Principal} (ho : (g.holders ev c resource action).outcome = .ok hs)
    (ho' : (g'.holders ev c resource action).outcome = .ok hs') :
    ∀ id ∈ Json.textsOf (hs.map Principal.arn), id ∈ Json.textsOf (hs'.map Principal.arn) := by
  intro id hid
  rw [mem_textsOf] at hid ⊢
  obtain ⟨P, hP, harn⟩ := List.mem_map.1 hid
  obtain ⟨hthere, hpermits⟩ := (mem_of_holders ho P).1 hP
  obtain ⟨P', hthere', harn'⟩ := exists_named hroll hthere
  have hfollows : Follows g ev ⟨action, resource, c⟩ g' ev ⟨action, resource, c⟩ := h.follows ev
  rw [← harn'] at hpermits
  obtain ⟨b, hb⟩ := permits_of_holders ho' P' hthere'
  have hpermits' : (g'.permits ev ⟨action, resource, c⟩ P'.arn).outcome = .ok true := by
    cases b with
    | true => exact hb
    | false => exact absurd hb (hfollows.permits hpermits)
  exact List.mem_map.2 ⟨P', (mem_of_holders ho' P').2 ⟨hthere', hpermits'⟩, harn'.trans harn⟩

/-- Statements that only allow make a graph no stricter. -/
theorem Supplements.eases (h : Supplements d g g') (hd : ∀ st ∈ d.statements, st.effect ≠ "Deny")
    (target : Json) : Eases target g g' where
  toAlike := alike_of_roll h.roll h.guardrails
  denies o a e _ hholds := by
    rcases h.gains true o a e hholds with hold | ⟨st, hst, hdeny⟩
    · exact hold
    · exact absurd (of_decide_eq_true hdeny.symm) (hd st hst)
  allows o a e _ := h.keeps false o a e

/-- Statements that only deny make it no milder. -/
theorem Supplements.eases_back (h : Supplements d g g')
    (hd : ∀ st ∈ d.statements, st.effect = "Deny") (target : Json) : Eases target g' g where
  toAlike := (alike_of_roll h.roll h.guardrails).symm
  denies o a e _ := h.keeps true o a e
  allows o a e _ hholds := by
    rcases h.gains false o a e hholds with hold | ⟨st, hst, hallow⟩
    · exact hold
    · exact absurd (hd st hst) (of_decide_eq_false hallow.symm)

end Graph

/-! ## Differences -/

namespace AccessDiff

theorem filter_contains_eq_nil {ids ids' : List String} (h : ∀ id ∈ ids, id ∈ ids') :
    ascending (ids.filter fun id => !ids'.contains id) = [] := by
  have hnone : (ids.filter fun id => !ids'.contains id) = [] := by
    refine List.filter_eq_nil_iff.2 fun id hid => ?_
    simpa using h id hid
  rw [hnone]
  exact List.mergeSort_nil

variable {ev : Evaluator} {c : Context} {resource : Json} {action : String} {g g' : Graph}

theorem between_ok {diff : AccessDiff}
    (ho : (between ev c resource action g g').outcome = .ok diff) : ∃ hs hs',
      (g.holders ev c resource action).outcome = .ok hs ∧
      (g'.holders ev c resource action).outcome = .ok hs' ∧
      diff = ofHolders (Json.textsOf (hs.map Principal.arn))
        (Json.textsOf (hs'.map Principal.arn)) := by
  unfold between at ho
  simp only [Traced.outcome_bind] at ho
  obtain ⟨hs, hbefore, ho⟩ := bind_eq_ok ho
  obtain ⟨hs', hafter, ho⟩ := bind_eq_ok ho
  exact ⟨hs, hs', hbefore, hafter, (Except.ok.inj ho).symm⟩

end AccessDiff

namespace Graph

/-- All principals can be asked for where all names are texts. -/
theorem holders_total {s : Snapshot} {g : Graph} (hs : s.Textual)
    (ho : (ofSnapshot s).outcome = .ok g) (x : Setting) :
    ∃ ps, (g.holders x.evaluator x.context (.str x.target) x.action).outcome = .ok ps :=
  ⟨_, holders_textual (ofSnapshot_compiled hs ho).textual x.evaluator x.context x.target x.action⟩

theorem textual_withPolicy {s : Snapshot} (hs : s.Textual) (p : String) (d : Document) :
    (s.withPolicy p d).Textual where
  arns P' hP' := by
    obtain ⟨P, hP, rfl⟩ := List.mem_map.1 hP'
    split <;> exact hs.arns P hP
  groups P' hP' := by
    obtain ⟨P, hP, rfl⟩ := List.mem_map.1 hP'
    split <;> exact hs.groups P hP
  resources := hs.resources

/-! ## Top theorem -/

/-- **What-if results follow the direction of the change.**  A policy is appended to all records of
a principal, and the snapshot becomes a graph as it did before.  Where the two graphs can be
compared, nobody loses a permission by statements that are no denies, and nobody gains one by
denies.  They can be compared if all names are texts. -/
theorem difference_of_policy {s : Snapshot} (hp : ∀ P ∈ s.principals, ∃ a, P.arn = .str a)
    (hr : ∀ R ∈ s.resources, ∃ a, R.arn = .str a) {g : Graph}
    (ho : (ofSnapshot s).outcome = .ok g) (p : String) (d : Document) :
    ((Changes.appending p [d]).apply s).outcome = .ok (s.withPolicy p d) ∧
      ∃ g', (ofSnapshot (s.withPolicy p d)).outcome = .ok g' ∧
        (∀ ev c resource action diff,
          (AccessDiff.between ev c resource action g g').outcome = .ok diff →
            ((∀ st ∈ d.statements, st.effect ≠ "Deny") → diff.revoked = []) ∧
              ((∀ st ∈ d.statements, st.effect = "Deny") → diff.granted = [])) ∧
        (s.Textual → ∀ x : Setting, ∃ diff, (AccessDiff.between x.evaluator x.context
          (.str x.target) x.action g g').outcome = .ok diff) := by
  have hp' : ∀ P ∈ (s.withPolicy p d).principals, ∃ a, P.arn = .str a := by
    intro P' hP'
    obtain ⟨P, hP, rfl⟩ := List.mem_map.1 hP'
    split <;> exact hp P hP
  obtain ⟨ds, hds⟩ := guardrailsOf_of_ofSnapshot ho
  obtain ⟨g', ho'⟩ := ofSnapshot_builds (s := s.withPolicy p d) hp' hr hds
  have hsupplements := supplements_withPolicy ho ho'
  refine ⟨apply_appending hp p d, g', ho', ?_, fun hs x => ?_⟩
  · intro ev c resource action diff hdiff
    obtain ⟨hs, hs', hbefore, hafter, rfl⟩ := AccessDiff.between_ok hdiff
    refine ⟨fun hd => AccessDiff.filter_contains_eq_nil ?_,
      fun hd => AccessDiff.filter_contains_eq_nil ?_⟩
    · exact holders_subset hsupplements.roll (hsupplements.eases hd resource) hbefore hafter
    · exact holders_subset hsupplements.roll.symm (hsupplements.eases_back hd resource) hafter
        hbefore
  · obtain ⟨ps, hbefore⟩ := holders_total hs ho x
    obtain ⟨ps', hafter⟩ := holders_total (textual_withPolicy hs p d) ho' x
    unfold AccessDiff.between
    simp only [Traced.outcome_bind, hbefore, hafter, ok_bind]
    exact ⟨_, rfl⟩

theorem sharedFile_textual : sharedFile.Textual := by
  refine ⟨fun P hP => ?_, fun P hP => ?_, fun R hR => ?_⟩
  · obtain rfl := List.mem_singleton.1 hP
    exact ⟨"member", rfl⟩
  · obtain rfl := List.mem_singleton.1 hP
    exact member_groups
  · obtain rfl := List.mem_singleton.1 hR
    exact ⟨"file", rfl⟩

/-- The member loses what a policy of its own denies, and nobody gains by it. -/
theorem difference_of_policy_sharedFile :
    let x : Setting := ⟨fun _ _ => .ok true, .empty, "read", "file"⟩
    let d : Document := ⟨[aboutAll "Deny" "read"], "", ""⟩
    (∀ P ∈ sharedFile.principals, ∃ a, P.arn = .str a) ∧
      (∀ R ∈ sharedFile.resources, ∃ a, R.arn = .str a) ∧ sharedFile.Textual ∧
      ∃ g g' diff, (ofSnapshot sharedFile).outcome = .ok g ∧
        ((Changes.appending "member" [d]).apply sharedFile).outcome =
          .ok (sharedFile.withPolicy "member" d) ∧
        (ofSnapshot (sharedFile.withPolicy "member" d)).outcome = .ok g' ∧
        (AccessDiff.between x.evaluator x.context (.str x.target) x.action g g').outcome =
          .ok diff ∧ diff.granted = [] ∧
        (g.permits x.evaluator x.request (.str "member")).outcome = .ok true ∧
        (g'.permits x.evaluator x.request (.str "member")).outcome = .ok false := by
  intro x d
  have hs := sharedFile_textual
  obtain ⟨g, ho⟩ : ∃ g, (ofSnapshot sharedFile).outcome = .ok g := ⟨_, rfl⟩
  obtain ⟨hchange, g', ho', hdirection, htotal⟩ :=
    difference_of_policy hs.arns hs.resources ho "member" d
  obtain ⟨diff, hdiff⟩ := htotal hs x
  have hgranted : diff.granted = [] := by
    refine (hdirection _ _ _ _ _ hdiff).2 fun st hst => ?_
    obtain rfl := List.mem_singleton.1 hst
    rfl
  have hbefore : (ofSnapshot sharedFile).outcome.map (fun g =>
      (g.permits x.evaluator x.request (.str "member")).outcome) = .ok (.ok true) := by rfl
  have hafter : (ofSnapshot (sharedFile.withPolicy "member" d)).outcome.map (fun g =>
      (g.permits x.evaluator x.request (.str "member")).outcome) = .ok (.ok false) := by rfl
  rw [ho] at hbefore
  rw [ho'] at hafter
  exact ⟨hs.arns, hs.resources, hs, g, g', diff, ho, hchange, ho', hdiff, hgranted,
    Except.ok.inj hbefore, Except.ok.inj hafter⟩

end Graph

end CloudAccess
