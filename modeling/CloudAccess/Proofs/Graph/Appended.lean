import CloudAccess.Proofs.Graph.Compilation
import CloudAccess.Proofs.Paired

/-!
# A statement more

`Snapshot.Appends` relates two snapshots, the second of which has a statement more at the end of
policies of principals and of resources.  An allow adds nothing where its condition does not hold,
be it false or undecided:

    st.effect ≠ "Deny" → x.answer st.condition ≠ .ok true → s'.basis x = s.basis x   (Appends.basis)

The condition of a statement is not always the one that its record gives.  What a record gives as
a condition and is no object is read as if it were not there (`Statement.ofJson_without`), and the
allow is then unconditional.
-/

namespace CloudAccess

/-! ## Conditions of records -/

namespace Json

/-- The members with other names. -/
def without (name : String) (ms : Members) : Members := ms.filter fun m => m.1 ≠ name

theorem member?_without_of_ne {name other : String} (h : other ≠ name) (ms : Members) :
    member? other (without name ms) = member? other ms := by
  unfold member? without
  induction ms with
  | nil => rfl
  | cons m rest ih =>
    obtain ⟨n, v⟩ := m
    by_cases hn : n = name
    · have hother : (other == n) = false := by simpa [hn] using h
      rw [List.filter_cons_of_neg (by simpa using hn), ih, List.lookup_cons, hother]
    · rw [List.filter_cons_of_pos (by simpa using hn), List.lookup_cons, List.lookup_cons, ih]

theorem member?_without_self (name : String) (ms : Members) :
    member? name (without name ms) = none := by
  unfold member? without
  rw [List.lookup_eq_none_iff]
  intro m hm
  have hne : m.1 ≠ name := by simpa using (List.mem_filter.1 hm).2
  simpa using hne.symm

theorem member_without_of_ne {name other : String} (h : other ≠ name) (ms : Members) :
    member other (without name ms) = member other ms := by
  rw [member, member, member?_without_of_ne h]

theorem member_without_self (name : String) (ms : Members) :
    member name (without name ms) = .null := by
  rw [member, member?_without_self]
  rfl

end Json

/-- A condition that is no object, or an empty one, is read as if it were not there. -/
theorem Statement.ofJson_without {ms : Json.Members}
    (h : ∀ m block, Json.member "Condition" ms ≠ .obj (m :: block)) :
    ofJson (.obj (Json.without "Condition" ms)) = ofJson (.obj ms) := by
  have hnull : conditionOf (Json.member "Condition" ms) = .null := by
    unfold conditionOf
    split
    · next m block he => exact absurd he (h m block)
    · rfl
  have hnull' : conditionOf (Json.member "Condition" (Json.without "Condition" ms)) = .null := by
    rw [Json.member_without_self]
    rfl
  simp (disch := decide) only [ofJson, hnull, hnull', Json.member_without_of_ne,
    Json.member?_without_of_ne]

/-! ## Snapshots with a statement more -/

/-- A document is the same, or has a statement more. -/
def Document.Appends (st : Statement) (d d' : Document) : Prop :=
  d' = d ∨ d' = { d with statements := d.statements ++ [st] }

/-- A principal is the same up to a statement more in policies of its own. -/
structure Principal.Appends (st : Statement) (P P' : Principal) : Prop where
  rest : P' = { P with policies := P'.policies }
  policies : List.Forall₂ (Document.Appends st) P.policies P'.policies

/-- A resource is the same up to a statement more in its policy. -/
structure Resource.Appends (st : Statement) (R R' : Resource) : Prop where
  rest : R' = { R with policy := R'.policy }
  policy : Option.Rel (Document.Appends st) R.policy R'.policy

/-- A snapshot is the same up to a statement more in policies of principals and resources. -/
structure Snapshot.Appends (st : Statement) (s s' : Snapshot) : Prop where
  rest : s' = { s with principals := s'.principals, resources := s'.resources }
  principals : List.Forall₂ (Principal.Appends st) s.principals s'.principals
  resources : List.Forall₂ (Resource.Appends st) s.resources s'.resources

theorem Document.Appends.mem_iff {st : Statement} {d d' : Document} (h : d.Appends st d') :
    (∀ k ∈ d.statements, k ∈ d'.statements) ∧
      ∀ k ∈ d'.statements, k ∈ d.statements ∨ k = st := by
  rcases h with rfl | rfl
  · exact ⟨fun _ hk => hk, fun _ hk => .inl hk⟩
  · refine ⟨fun k hk => List.mem_append_left _ hk, fun k hk => ?_⟩
    exact (List.mem_append.1 hk).imp_right List.mem_singleton.1

/-- Whoever is named last in the one list stands where the one in the other list does. -/
theorem lastNamed_forall₂ {R : Principal → Principal → Prop}
    (harn : ∀ P P', R P P' → P'.arn = P.arn) {ps ps' : List Principal}
    (h : List.Forall₂ R ps ps') (p : String) :
    Option.Rel R (lastNamed ps p) (lastNamed ps' p) := by
  unfold lastNamed
  have hreversed := List.rel_reverse h
  generalize ps.reverse = qs, ps'.reverse = qs' at hreversed ⊢
  induction hreversed with
  | nil => exact .none
  | @cons P P' _ _ hP _ ih =>
    have hnamed : P'.isNamed p = P.isNamed p := by
      unfold Principal.isNamed
      rw [harn P P' hP]
    rw [List.find?_cons, List.find?_cons, hnamed]
    cases P.isNamed p with
    | true => exact .some hP
    | false => exact ih

namespace Snapshot.Appends

variable {st : Statement} {s s' : Snapshot}

theorem textual (h : s.Appends st s') (hs : s.Textual) : s'.Textual where
  arns P' hP' := by
    obtain ⟨P, hP, happ⟩ := exists_of_forall₂_right h.principals hP'
    rw [happ.rest]
    exact hs.arns P hP
  groups P' hP' := by
    obtain ⟨P, hP, happ⟩ := exists_of_forall₂_right h.principals hP'
    rw [happ.rest]
    exact hs.groups P hP
  resources R' hR' := by
    obtain ⟨R, hR, happ⟩ := exists_of_forall₂_right h.resources hR'
    rw [happ.rest]
    exact hs.resources R hR

/-- The last principal with a name keeps all but policies. -/
theorem lastNamed_map (h : s.Appends st s') (p : String) {α : Type} (f : Principal → α)
    (hf : ∀ (P : Principal) ds, f { P with policies := ds } = f P) :
    (lastNamed s'.principals p).map f = (lastNamed s.principals p).map f := by
  have hlast := lastNamed_forall₂ (fun P P' hP => by rw [hP.rest]) h.principals p
  generalize lastNamed s.principals p = o, lastNamed s'.principals p = o' at hlast ⊢
  cases hlast with
  | none => rfl
  | some hP =>
    refine congrArg some ?_
    rw [hP.rest]
    exact hf _ _

/-- What was said is still said. -/
theorem speaks_of (h : s.Appends st s') {o : String} {k : Statement} {patterns : List String}
    (hk : Speaks s.principals s.resources o k patterns) :
    Speaks s'.principals s'.resources o k patterns := by
  cases hk with
  | identity hP ha hd hst =>
    obtain ⟨P', hP', happ⟩ := exists_of_forall₂_left h.principals hP
    obtain ⟨d', hd', hdoc⟩ := exists_of_forall₂_left happ.policies hd
    refine .identity hP' ?_ hd' (hdoc.mem_iff.1 k hst)
    rw [happ.rest]
    exact ha
  | @resource R r d _ id hR ha hd hst hi ho =>
    obtain ⟨R', hR', happ⟩ := exists_of_forall₂_left h.resources hR
    have ha' : R'.arn = .str r := by
      rw [happ.rest]
      exact ha
    have hpolicy := happ.policy
    rw [hd] at hpolicy
    generalize hd' : R'.policy = o' at hpolicy
    cases hpolicy with
    | some hdoc => exact .resource hR' ha' hd' (hdoc.mem_iff.1 k hst) hi ho

/-- Nothing is said but what was said before and what the statement says. -/
theorem speaks_or (h : s.Appends st s') {o : String} {k : Statement} {patterns : List String}
    (hk : Speaks s'.principals s'.resources o k patterns) :
    Speaks s.principals s.resources o k patterns ∨ k = st := by
  cases hk with
  | identity hP ha hd hst =>
    obtain ⟨P, hP, happ⟩ := exists_of_forall₂_right h.principals hP
    obtain ⟨d, hd, hdoc⟩ := exists_of_forall₂_right happ.policies hd
    refine (hdoc.mem_iff.2 k hst).imp_left fun hst => .identity hP ?_ hd hst
    rw [happ.rest] at ha
    exact ha
  | @resource R' r d' _ id hR ha hd' hst hi ho =>
    obtain ⟨R, hR, happ⟩ := exists_of_forall₂_right h.resources hR
    have ha' : R.arn = .str r := by
      rw [happ.rest] at ha
      exact ha
    have hpolicy := happ.policy
    rw [hd'] at hpolicy
    generalize hd : R.policy = o at hpolicy
    cases hpolicy with
    | some hdoc =>
      exact (hdoc.mem_iff.2 k hst).imp_left fun hst => .resource hR ha' hd hst hi ho

/-- Where the statement has no part in what is asked, the same is said of an owner. -/
theorem exists_speaks_iff (h : s.Appends st s') {o : String}
    {Q : Statement → List String → Prop} (hQ : ∀ patterns, ¬ Q st patterns) :
    (∃ k patterns, Speaks s'.principals s'.resources o k patterns ∧ Q k patterns) ↔
      ∃ k patterns, Speaks s.principals s.resources o k patterns ∧ Q k patterns := by
  refine exists_congr fun k => exists_congr fun patterns => ?_
  constructor
  · rintro ⟨hk, hsaid⟩
    refine ⟨(h.speaks_or hk).resolve_right ?_, hsaid⟩
    rintro rfl
    exact hQ patterns hsaid
  · rintro ⟨hk, hsaid⟩
    exact ⟨h.speaks_of hk, hsaid⟩

/-- **An allow that does not hold adds nothing.** -/
theorem basis (h : s.Appends st s') (hst : st.effect ≠ "Deny") {x : Setting}
    (hx : x.answer st.condition ≠ .ok true) : s'.basis x = s.basis x := by
  unfold Snapshot.basis
  congr 1
  · rw [h.rest]
    rfl
  · funext p
    have hboundary := congrArg (·.bind id) (h.lastNamed_map p Principal.boundary fun _ _ => rfl)
    simpa only [Option.bind_map, Function.id_comp] using hboundary
  · funext p
    rw [h.lastNamed_map p Principal.groups fun _ _ => rfl]
  · funext p
    exact propext (h.exists_speaks_iff fun _ hsaid => hx hsaid.2.2)
  · funext p
    exact propext (h.exists_speaks_iff fun _ hsaid => hst hsaid.1)

end Snapshot.Appends

namespace Graph

/-! ## Building -/

/-- Records that can each be added can all be added. -/
theorem foldlM_total {β : Type} {f : Graph → β → Run SnapshotError Graph} {bs : List β}
    (h : ∀ g, ∀ b ∈ bs, ∃ g', (f g b).outcome = .ok g') (g : Graph) :
    ∃ g', (bs.foldlM f g).outcome = .ok g' := by
  induction bs generalizing g with
  | nil => exact ⟨g, rfl⟩
  | cons b rest ih =>
    obtain ⟨g₁, h₁⟩ := h g b List.mem_cons_self
    rw [List.foldlM_cons, Traced.outcome_bind, h₁]
    exact ih (fun g c hc => h g c (List.mem_cons_of_mem _ hc)) g₁

/-- A snapshot whose records are named by texts becomes a graph if its organization policies can be
picked. -/
theorem ofSnapshot_builds {s : Snapshot} (hp : ∀ P ∈ s.principals, ∃ a, P.arn = .str a)
    (hr : ∀ R ∈ s.resources, ∃ a, R.arn = .str a) {ds : List Document}
    (hd : (guardrailsOf s).outcome = .ok ds) : ∃ g, (ofSnapshot s).outcome = .ok g := by
  have hprincipals (g : Graph) : ∀ P ∈ s.principals, ∃ g', (g.addPrincipal P).outcome = .ok g' := by
    intro P hP
    obtain ⟨a, ha⟩ := hp P hP
    rw [addPrincipal_outcome, ha]
    exact ⟨_, rfl⟩
  have hresources (g : Graph) : ∀ R ∈ s.resources, ∃ g', (g.addResource R).outcome = .ok g' := by
    intro R hR
    obtain ⟨r, ha⟩ := hr R hR
    obtain ⟨-, hn⟩ := addResourceStatements_str r R.statements
      { g with resources := g.resources.insert r R }
    rw [addResource_outcome, ha, Identifier.ofJson_str]
    simp only [Except.mapError, ok_bind, hn]
    exact ⟨_, rfl⟩
  obtain ⟨g₁, h₁⟩ := foldlM_total hprincipals { empty with guardrails := ds }
  obtain ⟨g₂, h₂⟩ := foldlM_total hresources g₁
  unfold ofSnapshot
  simp only [Traced.outcome_bind, Traced.outcome_mapError, hd, Except.mapError, ok_bind, h₁, h₂]
  exact ⟨g₂, rfl⟩

theorem ofSnapshot_total {s : Snapshot} (hs : s.Textual) {ds : List Document}
    (hd : (guardrailsOf s).outcome = .ok ds) : ∃ g, (ofSnapshot s).outcome = .ok g :=
  ofSnapshot_builds hs.arns hs.resources hd

/-- The organization policies of what became a graph could be picked. -/
theorem guardrailsOf_of_ofSnapshot {s : Snapshot} {g : Graph}
    (ho : (ofSnapshot s).outcome = .ok g) : ∃ ds, (guardrailsOf s).outcome = .ok ds := by
  unfold ofSnapshot at ho
  simp only [Traced.outcome_bind, Traced.outcome_mapError] at ho
  obtain ⟨ds, hd, -⟩ := bind_eq_ok ho
  exact ⟨ds, mapError_eq_ok hd⟩

/-! ## Top theorem -/

/-- **A condition that is an object and does not hold keeps an allow from granting.**  With the
allow more every request is decided as before where the condition of its record is an object that
comes to false or cannot be decided.  Where it is no object, the record is read as one without
a condition. -/
theorem decision_of_appends {s s' : Snapshot} {ms : Json.Members} {st : Statement}
    (hread : Statement.ofJson (.obj ms) = .ok st) (hst : st.effect ≠ "Deny") (h : s.Appends st s')
    (hs : s.Textual) {g : Graph} (ho : (ofSnapshot s).outcome = .ok g) :
    ∃ g', (ofSnapshot s').outcome = .ok g' ∧
      (∀ m block, Json.member "Condition" ms = .obj (m :: block) → ∀ (x : Setting) (p : String),
        x.answer (.obj (m :: block)) ≠ .ok true →
        (g'.decision x.evaluator x.request (.str p)).outcome =
          (g.decision x.evaluator x.request (.str p)).outcome) ∧
      ((∀ m block, Json.member "Condition" ms ≠ .obj (m :: block)) →
        Statement.ofJson (.obj (Json.without "Condition" ms)) = .ok st) := by
  have hs' := h.textual hs
  obtain ⟨g', ho'⟩ : ∃ g', (ofSnapshot s').outcome = .ok g' := by
    have hrun := ho
    unfold ofSnapshot at hrun
    simp only [Traced.outcome_bind, Traced.outcome_mapError] at hrun
    obtain ⟨ds, hd, -⟩ := bind_eq_ok hrun
    have hpicked : (guardrailsOf s').outcome = .ok ds := by
      rw [h.rest]
      exact mapError_eq_ok hd
    exact ofSnapshot_total hs' hpicked
  refine ⟨g', ho', fun m block hblock x p hx => ?_, fun hnone => ?_⟩
  · have hcondition : st.condition = .obj (m :: block) := by
      obtain rfl := Except.ok.inj hread
      show Statement.conditionOf (Json.member "Condition" ms) = _
      rw [hblock]
      rfl
    obtain ⟨d, hd, -, hsettles, -⟩ := permits_ofSnapshot hs ho x p
    obtain ⟨d', hd', -, hsettles', -⟩ := permits_ofSnapshot hs' ho' x p
    rw [h.basis hst (hcondition ▸ hx)] at hsettles'
    rw [hd, hd', hsettles.unique hsettles']
  · rw [Statement.ofJson_without hnone, hread]

/-- A member with a policy of its own. -/
def ownPolicy (ss : List Statement) : Snapshot where
  principals := [{ member with policies := [⟨ss, "", ""⟩] }]
  resources := []
  guardrails := []
  attachments := []
  hierarchy := none
  collectedAt := ""
  account := ""
  regions := []

theorem ownPolicy_appends (ss : List Statement) (st : Statement) :
    (ownPolicy ss).Appends st (ownPolicy (ss ++ [st])) where
  rest := rfl
  principals := .cons ⟨rfl, .cons (.inr rfl) .nil⟩ .nil
  resources := .nil

/-- To list things is allowed, with a statement more to read them if an unknown operator holds. -/
theorem decision_of_appends_ownPolicy :
    let listing : Statement := ⟨"Allow", ["list"], ["*"], .null, .null, ""⟩
    let block : Json := .obj [("StringFancyMatch", .obj [("aws:SourceIp", .str "x")])]
    let record : Json.Members :=
      [("Effect", .str "Allow"), ("Action", .str "read"), ("Resource", .str "*"),
        ("Condition", block)]
    let reading : Statement := ⟨"Allow", ["read"], ["*"], .null, block, ""⟩
    let x : Setting := ⟨Condition.standard, .empty, "read", "file"⟩
    Statement.ofJson (.obj record) = .ok reading ∧ reading.effect ≠ "Deny" ∧
      (ownPolicy [listing]).Appends reading (ownPolicy [listing, reading]) ∧
      (ownPolicy [listing]).Textual ∧
      ∃ g g', (ofSnapshot (ownPolicy [listing])).outcome = .ok g ∧
        (ofSnapshot (ownPolicy [listing, reading])).outcome = .ok g' ∧
        x.answer block ≠ .ok true ∧
        (g'.decision x.evaluator x.request (.str "member")).outcome =
          (g.decision x.evaluator x.request (.str "member")).outcome := by
  intro listing block record reading x
  have hread : Statement.ofJson (.obj record) = .ok reading := by rfl
  have heffect : reading.effect ≠ "Deny" := by decide
  have happends := ownPolicy_appends [listing] reading
  have htextual : (ownPolicy [listing]).Textual := by
    refine ⟨fun P hP => ?_, fun P hP => ?_, fun R hR => absurd hR List.not_mem_nil⟩
    · obtain rfl := List.mem_singleton.1 hP
      exact ⟨"member", rfl⟩
    · obtain rfl := List.mem_singleton.1 hP
      exact member_groups
  obtain ⟨g, ho⟩ : ∃ g, (ofSnapshot (ownPolicy [listing])).outcome = .ok g := ⟨_, rfl⟩
  obtain ⟨g', ho', hsame, -⟩ := decision_of_appends hread heffect happends htextual ho
  have hblock : x.answer block ≠ .ok true := by
    intro hok
    cases hok
  exact ⟨hread, heffect, happends, htextual, g, g', ho, ho', hblock,
    hsame _ _ rfl x "member" hblock⟩

/-- A condition that is a text does not keep an allow from granting. -/
theorem granted_with_text_as_condition :
    let listing : Statement := ⟨"Allow", ["list"], ["*"], .null, .null, ""⟩
    let record : Json.Members :=
      [("Effect", .str "Allow"), ("Action", .str "read"), ("Resource", .str "*"),
        ("Condition", .str "only over a secure transport")]
    let r : Request := ⟨"read", .str "file", .empty⟩
    ∃ reading g g', Statement.ofJson (.obj record) = .ok reading ∧
      (ownPolicy [listing]).Appends reading (ownPolicy [listing, reading]) ∧
      (ofSnapshot (ownPolicy [listing])).outcome = .ok g ∧
      (ofSnapshot (ownPolicy [listing, reading])).outcome = .ok g' ∧
      (g.permits Condition.standard r (.str "member")).outcome = .ok false ∧
      (g'.permits Condition.standard r (.str "member")).outcome = .ok true :=
  ⟨_, _, _, rfl, ownPolicy_appends _ _, rfl, rfl, rfl, rfl⟩

end Graph
end CloudAccess
