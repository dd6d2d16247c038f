import CloudAccess.Proofs.Decision.Narrowing
import CloudAccess.Proofs.Graph.Frames
import CloudAccess.Proofs.Graph.Loose
import CloudAccess.Proofs.Reach.Roles
import CloudAccess.Report

/-!
# What the public may do is reported

The report of public access does not decide requests.  It looks whether everyone is a principal of
the graph, and then for patterns of everyone's allow edges that cover a resource.  Still it misses
nothing that a decision would allow: on the graph of a snapshot in which no principal is recorded
under the reserved name,

    (g.permits e ⟨a, r.arn, c⟩ "*").outcome = .ok true →
      r is among `g.publicResources` and a finding names it             (public_access_reported)

or both reports fail, which happens only if a resource is named by no text.

* `Graph.Announced`: everyone is a principal as soon as they have edges.
* `Graph.granted_of_permits`: what everyone is permitted comes from an allow edge of their own.
-/

namespace CloudAccess

open Condition (Evaluator)

/-! ## Filtering with a test that may fail -/

section

variable {ε α : Type} {f : α → Except ε Bool} {l : List α}

theorem filterAuxM_eq_ok {acc ys : List α} (h : l.filterAuxM f acc = .ok ys) :
    (∀ a ∈ l, ∃ b, f a = .ok b) ∧ ∀ a, a ∈ ys ↔ a ∈ acc ∨ (a ∈ l ∧ f a = .ok true) := by
  induction l generalizing acc with
  | nil =>
    obtain rfl := Except.ok.inj h
    simp
  | cons x rest ih =>
    obtain ⟨b, hx, h⟩ := bind_eq_ok h
    obtain ⟨hall, hmem⟩ := ih h
    refine ⟨List.forall_mem_cons.2 ⟨⟨b, hx⟩, hall⟩, fun a => (hmem a).trans ?_⟩
    cases b with
    | true =>
      simp only [cond_true, List.mem_cons]
      constructor
      · rintro ((rfl | ha) | ⟨ha, hf⟩)
        · exact .inr ⟨.inl rfl, hx⟩
        · exact .inl ha
        · exact .inr ⟨.inr ha, hf⟩
      · rintro (ha | ⟨rfl | ha, hf⟩)
        · exact .inl (.inr ha)
        · exact .inl (.inl rfl)
        · exact .inr ⟨ha, hf⟩
    | false =>
      simp only [cond_false, List.mem_cons]
      refine or_congr_right ⟨fun h => ⟨.inr h.1, h.2⟩, ?_⟩
      rintro ⟨rfl | ha, hf⟩
      · rw [hx] at hf
        cases hf
      · exact ⟨ha, hf⟩

/-- A filter that ends has tried every item, and keeps those that pass. -/
theorem filterM_eq_ok {ys : List α} (h : l.filterM f = .ok ys) :
    (∀ a ∈ l, ∃ b, f a = .ok b) ∧ ∀ a, a ∈ ys ↔ a ∈ l ∧ f a = .ok true := by
  obtain ⟨zs, hz, h⟩ := bind_eq_ok h
  obtain rfl := Except.ok.inj h
  obtain ⟨hall, hmem⟩ := filterAuxM_eq_ok hz
  refine ⟨hall, fun a => ?_⟩
  rw [List.mem_reverse, hmem]
  simp

theorem exists_of_filterM_error {e : ε} (h : l.filterM f = .error e) : ∃ a ∈ l, f a = .error e := by
  have haux : ∀ acc, l.filterAuxM f acc = .error e → ∃ a ∈ l, f a = .error e := by
    clear h
    induction l with
    | nil => exact fun _ h => nomatch h
    | cons x rest ih =>
      intro acc h
      rcases bind_eq_error h with hx | ⟨b, -, h⟩
      · exact ⟨x, List.mem_cons_self, hx⟩
      · obtain ⟨a, ha, hf⟩ := ih _ h
        exact ⟨a, List.mem_cons_of_mem x ha, hf⟩
  rcases bind_eq_error h with h | ⟨zs, -, h⟩
  · exact haux [] h
  · cases h

end

namespace Graph

/-! ## Everyone as a principal -/

/-- Whoever stands for everyone is a principal of the graph if they have edges. -/
def Announced (g : Graph) : Prop :=
  ∀ deny a e, g.Holds deny Arn.anyone a e → (g.principal? Arn.anyone).isSome

/-- A principal under another name does not change what everyone has. -/
theorem Announced.addPrincipal {g g' : Graph} {P : Principal} (h : g.Announced)
    (hname : P.arn ≠ .str Arn.anyone) (ho : (g.addPrincipal P).outcome = .ok g') :
    g'.Announced := by
  rw [addPrincipal_outcome] at ho
  obtain ⟨id, hid, rfl⟩ := map_eq_ok ho
  replace hid := mapError_eq_ok hid
  have hne : (id == Identifier.text Arn.anyone) = false := by
    rw [← Bool.not_eq_true, Identifier.beq_iff]
    intro hkey
    refine hname (Json.eq_str_of_key? ?_)
    rw [Identifier.key_of_ofJson hid, hkey]
    rfl
  let recorded : Graph := { g with principals := g.principals.insert id P }
  obtain ⟨trust, ht⟩ := addTrustOf_eq (recorded.addIdentityPolicies id P.policies).1 id P
  rw [ht]
  intro deny a e hholds
  rcases (holds_addIdentityPolicies recorded id Arn.anyone P.policies deny a e).1 hholds with
    hold | ⟨d, -, st, -, howner, -⟩
  · have hsome := h deny a e hold
    show ((recorded.addIdentityPolicies id P.policies).1.principals.get? Arn.anyone).isSome
    rw [(OnlyEdges.addIdentityPolicies recorded id P.policies).principals]
    show ((g.principals.insert id P).get? Arn.anyone).isSome
    rwa [OrderedMap.get?_insert_of_ne _ hne]
  · rw [hne] at howner
    cases howner

/-- A statement that grants to everyone is about whoever is called so. -/
theorem publicName_eq_anyone {id : String} (h : publicName id = Arn.anyone) :
    Arn.isAnyone id = true := by
  unfold publicName at h
  split at h
  · assumption
  · rw [h]
    rfl

theorem ensureEveryone_isSome {g : Graph} {s : Statement} (h : s.grantees.any Arn.isAnyone = true) :
    ((g.ensureEveryone s).1.principal? Arn.anyone).isSome := by
  unfold ensureEveryone
  split
  · show ((g.principals.insert (Identifier.text Arn.anyone) Principal.everyone).get? _).isSome
    rw [OrderedMap.get?_insert_self]
    rfl
  · next hno =>
    rw [h, Bool.true_and, Option.isNone_iff_eq_none] at hno
    exact Option.isSome_iff_ne_none.2 hno

/-- Everyone is made a principal before they are granted anything. -/
theorem Announced.addResourceStatements (resource : Json) (ss : List Statement) {g : Graph}
    (h : g.Announced) : (addResourceStatements resource ss g).1.Announced := by
  refine addResourceStatements_keeps (fun g s patterns h deny a e hholds => ?_) resource ss h
  rw [principal?, (OnlyEdges.grant _ s patterns).principals]
  rcases (holds_grant _ s patterns deny Arn.anyone a e).1 hholds with
    hold | ⟨⟨id, hid, hname⟩, -⟩
  · exact (OnlyGrants.ensureEveryone g s).everyone
      (h deny a e ((holds_ensureEveryone g s deny _ a e).1 hold))
  · rw [Identifier.text_beq, decide_eq_true_eq] at hname
    exact ensureEveryone_isSome (List.any_eq_true.2 ⟨id, hid, publicName_eq_anyone hname⟩)

theorem Announced.addResource {g g' : Graph} {R : Resource} (h : g.Announced)
    (ho : (g.addResource R).outcome = .ok g') : g'.Announced := by
  rw [addResource_outcome] at ho
  obtain ⟨id, -, ho⟩ := bind_eq_ok ho
  obtain ⟨n, -, rfl⟩ := map_eq_ok ho
  exact Announced.addResourceStatements R.arn R.statements
    (g := { g with resources := g.resources.insert id R }) h

variable {s : Snapshot} {g : Graph}

theorem announced_of_ofSnapshot (ho : (ofSnapshot s).outcome = .ok g)
    (hreserved : ∀ P ∈ s.principals, P.arn ≠ .str Arn.anyone) : g.Announced := by
  obtain ⟨g₁, hp, hr⟩ := ofSnapshot_ok ho
  have h₀ : ({ empty with guardrails := s.applicable } : Graph).Announced :=
    fun deny a e h => absurd h (not_holds_empty s.applicable deny _ a e)
  have h₁ : g₁.Announced :=
    foldlM_preserves (P := Announced)
      (fun _ _ P hP h => h.addPrincipal (hreserved P hP)) h₀ hp
  exact foldlM_preserves (P := Announced) (fun _ _ _ _ h => h.addResource) h₁ hr

/-- What everyone is permitted comes from an allow edge of their own: they are in no group. -/
theorem granted_of_permits {e : Evaluator} {r : Request} (ho : (ofSnapshot s).outcome = .ok g)
    (hreserved : ∀ P ∈ s.principals, P.arn ≠ .str Arn.anyone)
    (h : (g.permits e r (.str Arn.anyone)).outcome = .ok true) :
    ∃ a edge, g.Holds false Arn.anyone a edge ∧ covers edge.pattern r.resource = .ok true := by
  have hgroups : g.groupsOf Arn.anyone = [] := by
    cases hlast : lastNamed s.principals Arn.anyone with
    | none => rw [(ofSnapshot_loaded ho).groups, hlast]; rfl
    | some P =>
      have hnamed := List.find?_some hlast
      exact absurd (Principal.isNamed_iff.1 hnamed)
        (hreserved P (List.mem_reverse.1 (List.mem_of_find?_eq_some hlast)))
  obtain ⟨q, hq, a, edge, hholds, -, hcovers⟩ := edge_of_permits h
  rw [hgroups] at hq
  rcases hq with rfl | hq
  · exact ⟨a, edge, hholds, hcovers⟩
  · exact absurd hq List.not_mem_nil

/-! ## The two reports -/

/-- The patterns of covering edges are all listed, once everything could be matched. -/
theorem mem_openActions {owner : Identifier} {resource : Json} {actions : List String}
    (h : g.openActions owner resource = .ok actions) {a : String} {e : Edge}
    (hholds : g.Holds false owner a e) (hcovers : covers e.pattern resource = .ok true) :
    a ∈ actions := by
  obtain ⟨held, hheld, h⟩ := bind_eq_ok h
  obtain rfl := Except.ok.inj h
  obtain ⟨edges, hentry, he⟩ := hholds
  obtain ⟨hall, hmem⟩ := filterM_eq_ok hheld
  obtain ⟨b, hb⟩ := hall _ hentry
  cases b with
  | true => exact List.mem_map.2 ⟨(a, edges), (hmem _).2 ⟨hentry, hb⟩, rfl⟩
  | false =>
    rw [anyPasses_eq_false_iff.1 hb e he] at hcovers
    cases hcovers

theorem openActions_eq_error {owner : Identifier} {resource : Json} {f : Fault}
    (h : g.openActions owner resource = .error f) :
    ∃ a e, g.Holds false owner a e ∧ covers e.pattern resource = .error f := by
  rcases bind_eq_error h with h | ⟨held, -, h⟩
  · obtain ⟨⟨a, edges⟩, hentry, hfault⟩ := exists_of_filterM_error h
    obtain ⟨e, he, hcovers⟩ := exists_of_anyPasses_error hfault
    exact ⟨a, e, ⟨edges, hentry, he⟩, hcovers⟩
  · cases h

/-- A resource with an edge of everyone is reported. -/
theorem mem_publicResources {found : List Resource} (h : g.publicResources = .ok found)
    (hannounced : g.Announced) {r : Resource} (hr : r ∈ g.resources.values) {a : String} {e : Edge}
    (hholds : g.Holds false Arn.anyone a e) (hcovers : covers e.pattern r.arn = .ok true) :
    r ∈ found := by
  unfold publicResources at h
  rw [if_neg (by simp [Option.isSome_iff_ne_none.1 (hannounced false a e hholds)])] at h
  obtain ⟨hall, hmem⟩ := filterM_eq_ok h
  obtain ⟨b, hb⟩ := hall r hr
  refine (hmem r).2 ⟨hr, ?_⟩
  obtain ⟨actions, hactions, -⟩ := bind_eq_ok hb
  have hin := mem_openActions hactions hholds hcovers
  rw [hactions, ok_bind]
  cases actions with
  | nil => exact absurd hin List.not_mem_nil
  | cons _ _ => rfl

/-- Whatever is reported to be public gets a finding. -/
theorem findings_of_publicResources {found : List Resource} (h : g.publicResources = .ok found) :
    ∃ fs, g.findings = .ok fs ∧
      ∀ r ∈ found, ∃ f ∈ fs, f.risk = .publicAccess ∧ f.resource = r.arn := by
  have hopen : ∀ r ∈ found, ∃ f, g.publicFinding r = .ok f ∧
      f.risk = .publicAccess ∧ f.resource = r.arn := by
    intro r hr
    unfold publicResources at h
    split at h
    · obtain rfl := Except.ok.inj h
      exact absurd hr List.not_mem_nil
    · obtain ⟨-, htest⟩ := ((filterM_eq_ok h).2 r).1 hr
      obtain ⟨actions, hactions, -⟩ := bind_eq_ok htest
      unfold publicFinding
      rw [hactions]
      exact ⟨_, rfl, rfl, rfl⟩
  obtain ⟨exposed, hexposed⟩ := mapM_ok fun r hr => (hopen r hr).imp fun _ hf => hf.1
  refine ⟨_, by unfold findings; rw [h, ok_bind, hexposed, ok_bind]; rfl, fun r hr => ?_⟩
  obtain ⟨f, hf, hrisk, hresource⟩ := hopen r hr
  refine ⟨f, List.mem_mergeSort.2 ?_, hrisk, hresource⟩
  simp [(mem_of_mapM hexposed f).2 ⟨r, hr, hf⟩]

/-- The reports fail only on a resource that is named by no text. -/
theorem publicResources_eq_error (ho : (ofSnapshot s).outcome = .ok g) {f : Fault}
    (h : g.publicResources = .error f) :
    g.findings = .error f ∧ ∃ R ∈ s.resources, ¬ ∃ t, R.arn = .str t := by
  refine ⟨by unfold findings; rw [h]; rfl, ?_⟩
  by_contra! htexts
  unfold publicResources at h
  split at h
  · cases h
  · obtain ⟨R, hR, hfault⟩ := exists_of_filterM_error h
    rcases bind_eq_error hfault with hfault | ⟨actions, -, hfault⟩
    · obtain ⟨a, e, hholds, hcovers⟩ := openActions_eq_error hfault
      obtain ⟨t, ht⟩ := htexts R (resources_of_ofSnapshot ho R hR)
      rcases (ofSnapshot_loaded ho).edges _ _ _ _ hholds with ⟨q, hq⟩ | ⟨R', hR', hno, -⟩
      · rw [ht, hq] at hcovers
        cases hcovers
      · exact hno.1 (htexts R' hR')
    · cases hfault

/-! ## Top theorem -/

/-- **The reports miss nothing that the public is permitted.**  Where no principal is recorded under
the reserved name, a resource on which everyone is permitted some action is reported to be public
and a finding names it.  Both reports may fail instead, and then some resource is recorded under
a name that is no text. -/
theorem public_access_reported (ho : (ofSnapshot s).outcome = .ok g)
    (hreserved : ∀ P ∈ s.principals, P.arn ≠ .str Arn.anyone) {r : Resource}
    (hr : r ∈ g.resources.values) {e : Evaluator} {action : String} {c : Context}
    (h : (g.permits e ⟨action, r.arn, c⟩ (.str Arn.anyone)).outcome = .ok true) :
    (∃ found fs, g.publicResources = .ok found ∧ r ∈ found ∧ g.findings = .ok fs ∧
        ∃ f ∈ fs, f.risk = .publicAccess ∧ f.resource = r.arn) ∨
      ∃ f, g.publicResources = .error f ∧ g.findings = .error f ∧
        ∃ R ∈ s.resources, ¬ ∃ t, R.arn = .str t := by
  obtain ⟨a, edge, hholds, hcovers⟩ := granted_of_permits ho hreserved h
  cases hreport : g.publicResources with
  | ok found =>
    have hfound : r ∈ found := mem_publicResources hreport
      (announced_of_ofSnapshot ho hreserved) hr hholds hcovers
    obtain ⟨fs, hfs, hnamed⟩ := findings_of_publicResources hreport
    exact .inl ⟨found, fs, rfl, hfound, hfs, hnamed r hfound⟩
  | error f => exact .inr ⟨f, rfl, publicResources_eq_error ho hreport⟩

/-- A file that everyone may read. -/
def openFile : Resource :=
  ⟨.str "file", .other, "", "", "",
    some ⟨[⟨"Allow", ["read"], ["*"], .str "*", .null, ""⟩], "", ""⟩⟩

/-- A snapshot without principals. -/
def holding (resources : List Resource) : Snapshot :=
  { sharedFile with principals := [], resources }

/-- The open file is reported. -/
theorem public_access_reported_openFile :
    ∃ g, (ofSnapshot (holding [openFile])).outcome = .ok g ∧ openFile ∈ g.resources.values ∧
      (g.permits Condition.standard ⟨"read", openFile.arn, .empty⟩ (.str Arn.anyone)).outcome =
        .ok true ∧
      ∃ found fs, g.publicResources = .ok found ∧ openFile ∈ found ∧ g.findings = .ok fs ∧
        ∃ f ∈ fs, f.risk = .publicAccess ∧ f.resource = openFile.arn := by
  obtain ⟨g, ho, hr, hpermits⟩ : ∃ g, (ofSnapshot (holding [openFile])).outcome = .ok g ∧
      openFile ∈ g.resources.values ∧
      (g.permits Condition.standard ⟨"read", openFile.arn, .empty⟩ (.str Arn.anyone)).outcome =
        .ok true := ⟨_, rfl, List.mem_singleton_self openFile, rfl⟩
  refine ⟨g, ho, hr, hpermits, ?_⟩
  rcases public_access_reported ho (fun P hP => absurd hP List.not_mem_nil) hr hpermits with
    hreported | ⟨f, -, -, R, hR, htext⟩
  · exact hreported
  · obtain rfl := List.mem_singleton.1 hR
    exact absurd ⟨_, rfl⟩ htext

/-- Beside a resource that is named by a number the open file is not reported, nor is anything
else. -/
theorem public_access_unreported :
    let numbered : Resource := { openFile with arn := .int 5, policy := none }
    ∃ g, (ofSnapshot (holding [numbered, openFile])).outcome = .ok g ∧
      openFile ∈ g.resources.values ∧
      (g.permits Condition.standard ⟨"read", openFile.arn, .empty⟩ (.str Arn.anyone)).outcome =
        .ok true ∧
      g.publicResources = .error (.notMatchable .int) ∧
      g.findings = .error (.notMatchable .int) :=
  ⟨_, rfl, List.mem_cons_of_mem _ (List.mem_singleton_self openFile), rfl, rfl, rfl⟩

end Graph
end CloudAccess
