import CloudAccess.Proofs.Decision.Meaning
import CloudAccess.Proofs.Graph.Documents
import Mathlib

/-!
# From documents to edges and back

The graph of a snapshot means what the documents of the snapshot mean:

    (ofSnapshot s).outcome = .ok g → g.basis x = s.basis x            (ofSnapshot_basis)
    … → ∃ d, (g.permits …).outcome = .ok d.allowed ∧ (d.allowed = true ↔ (s.basis x).Permits x p)

Each step that compiles something is described by the edges that are held after it, and by what
it leaves alone (`Graph.Keeps`).  `Graph.Compiled` relates a graph to the records that went into
it; a record more on both sides keeps it.
-/

namespace CloudAccess

/-- A fold that counts along is the fold that does not. -/
theorem foldl_fst {σ ν β : Type} {step : σ → β → σ} {f : σ × ν → β → σ × ν}
    (h : ∀ x b, (f x b).1 = step x.1 b) (bs : List β) (x : σ × ν) :
    (bs.foldl f x).1 = bs.foldl step x.1 := by
  induction bs generalizing x with
  | nil => rfl
  | cons b rest ih => rw [List.foldl_cons, List.foldl_cons, ih, h]

namespace Graph

theorem addIdentityPolicy_fst (g : Graph) (owner : Identifier) (d : Document) :
    (g.addIdentityPolicy owner d).1 =
      d.statements.foldl (fun g s => g.addStatement owner s (s.resources.map .str)) g :=
  foldl_fst (fun _ _ => rfl) d.statements (g, 0)

theorem addIdentityPolicies_fst (g : Graph) (owner : Identifier) (ds : List Document) :
    (g.addIdentityPolicies owner ds).1 =
      ds.foldl (fun g d => (g.addIdentityPolicy owner d).1) g :=
  foldl_fst (fun _ _ => rfl) ds (g, 0)

/-! ## What compiling leaves alone -/

/-- A graph that has grown decides by the same policies that guard, and has the same groups. -/
structure Keeps (g g' : Graph) : Prop where
  textual : g.Textual → g'.Textual
  guardrails : g'.guardrails = g.guardrails
  boundary : ∀ p : String,
    (g'.principal? p).bind Principal.boundary = (g.principal? p).bind Principal.boundary
  groups : ∀ p, g'.groupsOf p = g.groupsOf p

namespace Keeps

variable {g g' g'' : Graph}

theorem refl (g : Graph) : g.Keeps g := ⟨id, rfl, fun _ => rfl, fun _ => rfl⟩

theorem trans (h : g.Keeps g') (h' : g'.Keeps g'') : g.Keeps g'' where
  textual := h'.textual ∘ h.textual
  guardrails := h'.guardrails.trans h.guardrails
  boundary p := (h'.boundary p).trans (h.boundary p)
  groups p := (h'.groups p).trans (h.groups p)

theorem foldl {β : Type} {step : Graph → β → Graph} (bs : List β)
    (h : ∀ (g : Graph), ∀ b ∈ bs, g.Keeps (step g b)) (g : Graph) : g.Keeps (bs.foldl step g) :=
  foldl_related refl trans h g

theorem insertEdge (g : Graph) (owner : Identifier) (action : String) (deny : Bool) {e : Edge}
    (he : ∃ q, e.pattern = .str q) : g.Keeps (g.insertEdge owner action deny e) where
  textual hg := hg.insertEdge owner action deny he
  guardrails := by cases deny <;> rfl
  boundary p := by cases deny <;> rfl
  groups p := by cases deny <;> rfl

theorem addStatement (g : Graph) (owner : Identifier) (s : Statement) (patterns : List String) :
    g.Keeps (g.addStatement owner s (patterns.map .str)) := by
  unfold Graph.addStatement
  refine foldl _ (fun g action _ => foldl _ (fun g q hq => ?_) g) g
  obtain ⟨q, -, rfl⟩ := List.mem_map.1 hq
  exact insertEdge g owner action s.isDeny ⟨q, rfl⟩

theorem grant (g : Graph) (s : Statement) (patterns : List String) :
    g.Keeps (g.grant s (patterns.map .str)) :=
  foldl _ (fun g owner _ => addStatement g (.text owner) s patterns) g

/-- Everyone is a principal without a boundary and without groups. -/
theorem ensureEveryone (g : Graph) (s : Statement) : g.Keeps (g.ensureEveryone s).1 := by
  unfold Graph.ensureEveryone
  split
  · next h =>
    rw [Bool.and_eq_true, Option.isNone_iff_eq_none] at h
    have hnone : g.principals.get? Arn.anyone = none := h.2
    have hget (p : String) : (p = Arn.anyone ∧ (g.principals.insert (Identifier.text Arn.anyone)
        Principal.everyone).get? p = some Principal.everyone) ∨
        (g.principals.insert (Identifier.text Arn.anyone) Principal.everyone).get? p =
          g.principals.get? p := by
      by_cases hp : p = Arn.anyone
      · exact .inl ⟨hp, by rw [hp, OrderedMap.get?_insert_self]⟩
      · exact .inr (OrderedMap.get?_insert_of_ne _ (by simpa using Ne.symm hp) _)
    exact {
      textual hg := hg.insertPrincipal _ ⟨_, rfl⟩ fun q hq => absurd hq List.not_mem_nil
      guardrails := rfl
      boundary p := by
        unfold principal?
        rcases hget p with ⟨rfl, ho⟩ | ho
        · rw [ho, hnone]
          rfl
        · rw [ho]
      groups p := by
        unfold groupsOf principal?
        rcases hget p with ⟨rfl, ho⟩ | ho
        · rw [ho, hnone]
          rfl
        · rw [ho] }
  · exact refl g

theorem addIdentityPolicy (g : Graph) (owner : Identifier) (d : Document) :
    g.Keeps (g.addIdentityPolicy owner d).1 := by
  rw [addIdentityPolicy_fst]
  exact foldl _ (fun g s _ => addStatement g owner s s.resources) g

theorem addIdentityPolicies (g : Graph) (owner : Identifier) (ds : List Document) :
    g.Keeps (g.addIdentityPolicies owner ds).1 := by
  rw [addIdentityPolicies_fst]
  exact foldl _ (fun g d _ => addIdentityPolicy g owner d) g

end Keeps

/-! ## Which edges compiling adds -/

theorem holds_addIdentityPolicies (g : Graph) (owner o : Identifier) (ds : List Document)
    (d : Bool) (a : String) (e : Edge) :
    (g.addIdentityPolicies owner ds).1.Holds d o a e ↔ g.Holds d o a e ∨
      ∃ doc ∈ ds, ∃ st ∈ doc.statements,
        (owner == o) = true ∧ Statement.Makes st (st.resources.map .str) d a e := by
  rw [addIdentityPolicies_fst]
  refine foldl_adds (P := fun g : Graph => g.Holds d o a e) (fun g doc => ?_) ds g
  rw [addIdentityPolicy_fst]
  exact foldl_adds (P := fun g : Graph => g.Holds d o a e)
    (fun g st => holds_addStatement g owner o st (st.resources.map .str) d a e) doc.statements g

/-- The grantees of a statement, by the names under which they own edges. -/
theorem mem_ownersOf (s : Statement) (o : String) :
    o ∈ ownersOf s ↔ ∃ id ∈ s.grantees, publicName id = o := by
  unfold ownersOf
  rw [List.mem_eraseDups, List.mem_map]
  rfl

theorem holds_ensureEveryone (g : Graph) (s : Statement) (d : Bool) (o : Identifier) (a : String)
    (e : Edge) : (g.ensureEveryone s).1.Holds d o a e ↔ g.Holds d o a e := by
  unfold ensureEveryone
  split
  · rfl
  · rfl

theorem holds_grant (g : Graph) (s : Statement) (patterns : List Json) (d : Bool) (o : Identifier)
    (a : String) (e : Edge) : (g.grant s patterns).Holds d o a e ↔ g.Holds d o a e ∨
      ((∃ id ∈ s.grantees, (Identifier.text (publicName id) == o) = true) ∧
        Statement.Makes s patterns d a e) := by
  unfold grant
  rw [foldl_adds (P := fun g : Graph => g.Holds d o a e)
    (fun g owner => holds_addStatement g (.text owner) o s patterns d a e)]
  refine or_congr .rfl ?_
  constructor
  · rintro ⟨owner, hm, ho, hs⟩
    obtain ⟨id, hi, rfl⟩ := (mem_ownersOf s owner).1 hm
    exact ⟨⟨id, hi, ho⟩, hs⟩
  · rintro ⟨⟨id, hi, ho⟩, hs⟩
    exact ⟨publicName id, (mem_ownersOf s _).2 ⟨id, hi, rfl⟩, ho, hs⟩

/-- What one statement in the policy of a resource adds. -/
def addResourceStatement (r : String) (g : Graph) (s : Statement) : Graph :=
  (g.ensureEveryone s).1.grant s ((confine r s.resources).map .str)

theorem Keeps.addResourceStatement (r : String) (g : Graph) (s : Statement) :
    g.Keeps (g.addResourceStatement r s) :=
  (ensureEveryone g s).trans (grant _ s (confine r s.resources))

theorem addResourceStatements_str (r : String) (ss : List Statement) (g : Graph) :
    (addResourceStatements (.str r) ss g).1 = ss.foldl (addResourceStatement r) g ∧
      (addResourceStatements (.str r) ss g).2.outcome = .ok (ss.map fun s =>
        (ownersOf s).length * edgeCount s ((confine r s.resources).map .str)).sum := by
  induction ss generalizing g with
  | nil => exact ⟨rfl, rfl⟩
  | cons s rest ih =>
    obtain ⟨hg, hn⟩ := ih (g.addResourceStatement r s)
    refine ⟨hg, ?_⟩
    show (addResourceStatements (.str r) rest (g.addResourceStatement r s)).2.outcome.map _ = _
    rw [hn]
    rfl

/-! ## Records -/

theorem addTrustPolicy_fst (g : Graph) (role : Identifier) (d : Document) :
    (g.addTrustPolicy role d).1 =
      { g with trust := (trustorsOf d).foldl (fun m t => m.push role t) g.trust } := by
  unfold addTrustPolicy
  induction trustorsOf d generalizing g with
  | nil => rfl
  | cons t rest ih => exact ih (g.insertTrust t role)

theorem addTrustOf_eq (g : Graph) (role : Identifier) (p : Principal) :
    ∃ trust, g.addTrustOf role p = { g with trust } := by
  unfold addTrustOf
  split
  · exact ⟨_, addTrustPolicy_fst g role _⟩
  · exact ⟨_, rfl⟩

/-- A principal whose identifier can be used is recorded with its policies. -/
theorem addPrincipal_outcome (g : Graph) (p : Principal) : (g.addPrincipal p).outcome =
    ((Identifier.ofJson p.arn).mapError fun f => .malformed (.policies p.arn f)).map fun id =>
      (({ g with principals := g.principals.insert id p } : Graph).addIdentityPolicies id
        p.policies).1.addTrustOf id p := by
  unfold addPrincipal insertPrincipal
  cases Identifier.ofJson p.arn <;> rfl

/-- A resource whose identifier can be used is recorded with what its policy adds, unless
a statement of it cannot be confined. -/
theorem addResource_outcome (g : Graph) (r : Resource) : (g.addResource r).outcome =
    ((Identifier.ofJson r.arn).mapError fun f => .malformed (.resourcePolicy r.arn f)) >>= fun id =>
      let added := addResourceStatements r.arn r.statements
        { g with resources := g.resources.insert id r }
      (added.2.outcome.mapError fun f => .malformed (.resourcePolicy r.arn f)).map fun _ =>
        added.1 := by
  unfold addResource insertResource Resource.statements
  cases Identifier.ofJson r.arn with
  | error f => rfl
  | ok id =>
    cases r.policy with
    | none => rfl
    | some d =>
      simp only [pure, Except.pure, Except.mapError, ok_bind, Traced.outcome_bind,
        Traced.outcome_ofExcept, Traced.outcome_mapError, addResourcePolicy, Option.map_some,
        Option.getD_some]
      cases (addResourceStatements r.arn d.statements
        { g with resources := g.resources.insert id r }).2.outcome <;> rfl

/-! ## Graphs and the records that went into them -/

/-- A graph means what its records say. -/
structure Compiled (gs : List Document) (ps : List Principal) (rs : List Resource) (g : Graph) :
    Prop where
  textual : g.Textual
  guardrails : g.guardrails = gs
  boundary : ∀ p : String,
    (g.principal? p).bind Principal.boundary = (lastNamed ps p).bind Principal.boundary
  groups : ∀ p, g.groupsOf p = ((lastNamed ps p).map Principal.groups).getD []
  edges : ∀ (deny : Bool) (o a : String) (e : Edge), g.Holds deny o a e ↔
    ∃ st patterns, Speaks ps rs o st patterns ∧ Statement.Makes st (patterns.map .str) deny a e

variable {gs : List Document} {ps : List Principal} {rs : List Resource} {g g' : Graph}

theorem compiled_empty (gs : List Document) :
    Compiled gs [] [] { empty with guardrails := gs } where
  textual := textual_empty gs
  guardrails := rfl
  boundary _ := rfl
  groups _ := rfl
  edges deny o a e := by
    refine ⟨fun h => absurd h (not_holds_empty gs deny o a e), ?_⟩
    rintro ⟨st, patterns, hs, -⟩
    cases hs with
    | identity hP => exact absurd hP List.not_mem_nil
    | resource hR => exact absurd hR List.not_mem_nil

theorem lastNamed_snoc (ps : List Principal) (p : Principal) (q : String) :
    lastNamed (ps ++ [p]) q = if p.isNamed q then some p else lastNamed ps q := by
  unfold lastNamed
  rw [List.reverse_append, List.reverse_singleton, List.singleton_append, List.find?_cons]
  cases p.isNamed q <;> rfl

/-- A principal that is recorded is from then on the last one of its name. -/
theorem get?_insert_named (m : OrderedMap Identifier Principal) {P : Principal} {id : Identifier}
    (hid : Identifier.ofJson P.arn = .ok id) (p : String) :
    (m.insert id P).get? p = if P.isNamed p then some P else m.get? p := by
  by_cases hp : P.isNamed p = true
  · rw [Principal.isNamed_iff.1 hp, Identifier.ofJson_str] at hid
    obtain rfl := Except.ok.inj hid
    rw [OrderedMap.get?_insert_self, if_pos hp]
  · have hne : (id == Identifier.text p) = false := by
      rw [← Bool.not_eq_true, Identifier.beq_iff]
      intro hkey
      refine hp (Principal.isNamed_iff.2 (Json.eq_str_of_key? ?_))
      rw [Identifier.key_of_ofJson hid, hkey]
      rfl
    rw [OrderedMap.get?_insert_of_ne _ hne, if_neg hp]

theorem speaks_snoc_principal (P : Principal) (o : String) (st : Statement)
    (patterns : List String) : Speaks (ps ++ [P]) rs o st patterns ↔
      Speaks ps rs o st patterns ∨
        (P.arn = .str o ∧ (∃ d ∈ P.policies, st ∈ d.statements) ∧ patterns = st.resources) := by
  constructor
  · intro h
    cases h with
    | identity hP ha hd hs =>
      rcases List.mem_append.1 hP with hP | hP
      · exact .inl (.identity hP ha hd hs)
      · obtain rfl := List.mem_singleton.1 hP
        exact .inr ⟨ha, ⟨_, hd, hs⟩, rfl⟩
    | resource hR ha hd hs hi ho => exact .inl (.resource hR ha hd hs hi ho)
  · rintro (h | ⟨ha, ⟨d, hd, hs⟩, rfl⟩)
    · cases h with
      | identity hP ha hd hs => exact .identity (List.mem_append_left _ hP) ha hd hs
      | resource hR ha hd hs hi ho => exact .resource hR ha hd hs hi ho
    · exact .identity (List.mem_append_right _ (List.mem_singleton_self P)) ha hd hs

theorem speaks_snoc_resource {R : Resource} {r : String} (ha : R.arn = .str r) (o : String)
    (st : Statement) (patterns : List String) : Speaks ps (rs ++ [R]) o st patterns ↔
      Speaks ps rs o st patterns ∨
        (st ∈ R.statements ∧
          (∃ id ∈ st.grantees, publicName id = o) ∧ patterns = confine r st.resources) := by
  constructor
  · intro h
    cases h with
    | identity hP ha hd hs => exact .inl (.identity hP ha hd hs)
    | resource hR ha' hd hs hi ho =>
      rcases List.mem_append.1 hR with hR | hR
      · exact .inl (.resource hR ha' hd hs hi ho)
      · obtain rfl := List.mem_singleton.1 hR
        obtain rfl := Json.str.inj (ha.symm.trans ha')
        exact .inr ⟨by rw [Resource.statements, hd]; exact hs, ⟨_, hi, ho⟩, rfl⟩
  · rintro (h | ⟨hs, ⟨id, hi, ho⟩, rfl⟩)
    · cases h with
      | identity hP ha hd hs => exact .identity hP ha hd hs
      | resource hR ha hd hs hi ho => exact .resource (List.mem_append_left _ hR) ha hd hs hi ho
    · unfold Resource.statements at hs
      cases hd : R.policy with
      | none => rw [hd] at hs; exact absurd hs List.not_mem_nil
      | some d =>
        rw [hd] at hs
        exact .resource (List.mem_append_right _ (List.mem_singleton_self R)) ha hd hs hi ho

/-- A principal more. -/
theorem Compiled.addPrincipal (h : Compiled gs ps rs g) {P : Principal}
    (ha : ∃ a, P.arn = .str a) (hq : ∀ q ∈ P.groups, ∃ a, q = .str a)
    (ho : (g.addPrincipal P).outcome = .ok g') : Compiled gs (ps ++ [P]) rs g' := by
  have hname := ha
  obtain ⟨a, ha⟩ := ha
  rw [addPrincipal_outcome, ha] at ho
  obtain ⟨trust, ht⟩ := addTrustOf_eq (({ g with principals := g.principals.insert a P } :
    Graph).addIdentityPolicies a P.policies).1 a P
  obtain rfl : _ = g' := ht.symm.trans (Except.ok.inj ho)
  have k := Keeps.addIdentityPolicies { g with principals := g.principals.insert a P } a P.policies
  have hid : Identifier.ofJson P.arn = .ok (.text a) := by rw [ha]; rfl
  have hget := get?_insert_named g.principals hid
  have htextual := k.textual (h.textual.insertPrincipal a hname hq)
  refine ⟨htextual.congr rfl rfl rfl, k.guardrails.trans h.guardrails, fun q => ?_,
    fun q => ?_, fun deny o b e => ?_⟩
  · refine (k.boundary q).trans ?_
    unfold principal?
    rw [hget, lastNamed_snoc]
    cases P.isNamed q with
    | true => rfl
    | false => exact h.boundary q
  · refine (k.groups q).trans ?_
    unfold groupsOf principal?
    rw [hget, lastNamed_snoc]
    cases P.isNamed q with
    | true => rfl
    | false => exact h.groups q
  · refine (holds_addIdentityPolicies _ _ _ _ _ _ _).trans ?_
    have hold : ({ g with principals := g.principals.insert a P } : Graph).Holds deny o b e ↔ _ :=
      h.edges deny o b e
    rw [hold]
    simp only [speaks_snoc_principal, Identifier.text_beq, decide_eq_true_eq, ha, Json.str.injEq]
    constructor
    · rintro (⟨st, patterns, hs, hm⟩ | ⟨d, hd, st, hs, ho, hm⟩)
      · exact ⟨st, patterns, .inl hs, hm⟩
      · exact ⟨st, st.resources, .inr ⟨ho, ⟨d, hd, hs⟩, rfl⟩, hm⟩
    · rintro ⟨st, patterns, hs | ⟨ho, ⟨d, hd, hs⟩, rfl⟩, hm⟩
      · exact .inl ⟨st, patterns, hs, hm⟩
      · exact .inr ⟨d, hd, st, hs, ho, hm⟩

/-- A resource more. -/
theorem Compiled.addResource (h : Compiled gs ps rs g) {R : Resource}
    (ha : ∃ a, R.arn = .str a) (ho : (g.addResource R).outcome = .ok g') :
    Compiled gs ps (rs ++ [R]) g' := by
  obtain ⟨r, ha⟩ := ha
  obtain ⟨hg, hn⟩ := addResourceStatements_str r R.statements
    { g with resources := g.resources.insert r R }
  rw [addResource_outcome, ha, Identifier.ofJson_str] at ho
  simp only [Except.mapError, ok_bind, hg, hn] at ho
  obtain rfl := Except.ok.inj ho
  have k := Keeps.foldl R.statements
    (fun g s _ => Keeps.addResourceStatement r g s)
    { g with resources := g.resources.insert r R }
  refine ⟨k.textual (h.textual.congr rfl rfl rfl),
    k.guardrails.trans h.guardrails, fun q => (k.boundary q).trans (h.boundary q),
    fun q => (k.groups q).trans (h.groups q), fun deny o b e => ?_⟩
  have hone (g : Graph) (st : Statement) : (g.addResourceStatement r st).Holds deny o b e ↔
      g.Holds deny o b e ∨ ((∃ id ∈ st.grantees, publicName id = o) ∧
        Statement.Makes st ((confine r st.resources).map .str) deny b e) := by
    refine (holds_grant _ _ _ _ _ _ _).trans (or_congr (holds_ensureEveryone g st deny o b e) ?_)
    simp only [Identifier.text_beq, decide_eq_true_eq]
  refine (foldl_adds (P := fun g : Graph => g.Holds deny o b e) hone _ _).trans ?_
  have hold : ({ g with resources := g.resources.insert r R } : Graph).Holds deny o b e ↔ _ :=
    h.edges deny o b e
  rw [hold]
  simp only [speaks_snoc_resource ha]
  constructor
  · rintro (⟨st, patterns, hs, hm⟩ | ⟨st, hs, ho, hm⟩)
    · exact ⟨st, patterns, .inl hs, hm⟩
    · exact ⟨st, confine r st.resources, .inr ⟨hs, ho, rfl⟩, hm⟩
  · rintro ⟨st, patterns, hs | ⟨hs, ho, rfl⟩, hm⟩
    · exact .inl ⟨st, patterns, hs, hm⟩
    · exact .inr ⟨st, hs, ho, hm⟩

/-- What one more record keeps, a run through records keeps. -/
theorem foldlM_compiles {β : Type} {f : Graph → β → Run SnapshotError Graph}
    {P : List β → Graph → Prop} {bs : List β}
    (step : ∀ seen g g', ∀ b ∈ bs, P seen g → (f g b).outcome = .ok g' → P (seen ++ [b]) g')
    {seen : List β} (h : P seen g) (ho : (bs.foldlM f g).outcome = .ok g') : P (seen ++ bs) g' := by
  induction bs generalizing seen g with
  | nil =>
    rw [List.append_nil]
    exact Except.ok.inj ho ▸ h
  | cons b rest ih =>
    rw [List.foldlM_cons, Traced.outcome_bind] at ho
    cases hb : (f g b).outcome with
    | error e => rw [hb] at ho; cases ho
    | ok g₁ =>
      rw [hb] at ho
      have h₁ := step seen g g₁ b List.mem_cons_self h hb
      have hr := ih (fun seen g g' c hc => step seen g g' c (List.mem_cons_of_mem _ hc)) h₁ ho
      rwa [List.append_assoc] at hr

/-- A property of the graph alone. -/
theorem foldlM_preserves {β : Type} {f : Graph → β → Run SnapshotError Graph} {P : Graph → Prop}
    {bs : List β} (step : ∀ g g', ∀ b ∈ bs, P g → (f g b).outcome = .ok g' → P g') (h : P g)
    (ho : (bs.foldlM f g).outcome = .ok g') : P g' :=
  @foldlM_compiles g g' β f (fun _ => P) bs (fun _ => step) [] h ho

/-- A graph was made of a snapshot by going through its principals and then its resources. -/
theorem ofSnapshot_ok {s : Snapshot} (ho : (ofSnapshot s).outcome = .ok g) :
    ∃ g₁, (s.principals.foldlM Graph.addPrincipal
        { empty with guardrails := s.applicable }).outcome = .ok g₁ ∧
      (s.resources.foldlM Graph.addResource g₁).outcome = .ok g := by
  unfold ofSnapshot at ho
  simp only [Traced.outcome_bind, Traced.outcome_mapError] at ho
  obtain ⟨ds, hd, ho⟩ := bind_eq_ok ho
  obtain rfl := guardrailsOf_applicable (mapError_eq_ok hd)
  obtain ⟨g₁, hp, ho⟩ := bind_eq_ok ho
  obtain ⟨g₂, hr, ho⟩ := bind_eq_ok ho
  exact ⟨g₁, hp, hr.trans ho⟩

/-- The graph of a snapshot means what all the records say. -/
theorem ofSnapshot_compiled {s : Snapshot} (hs : s.Textual)
    (ho : (ofSnapshot s).outcome = .ok g) :
    Compiled s.applicable s.principals s.resources g := by
  obtain ⟨g₁, hp, hr⟩ := ofSnapshot_ok ho
  have h₁ : Compiled s.applicable s.principals [] g₁ :=
    foldlM_compiles (P := fun ps g => Compiled s.applicable ps [] g)
      (fun seen g g' P hP h => h.addPrincipal (hs.arns P hP) (hs.groups P hP))
      (compiled_empty s.applicable) hp
  exact foldlM_compiles (P := fun rs g => Compiled s.applicable s.principals rs g)
    (fun seen g g' R hR h => h.addResource (hs.resources R hR)) h₁ hr

/-! ## Top theorems -/

/-- An edge applies exactly when the statement that it comes from does. -/
theorem meets_makes (x : Setting) (st : Statement) (patterns : List String) (deny : Bool)
    (Q : Except String Bool → Prop) :
    (∃ a e, Statement.Makes st (patterns.map .str) deny a e ∧ x.Meets a e ∧
        Q (x.answer e.conditions)) ↔
      deny = st.isDeny ∧ x.Matches st.actions patterns ∧ Q (x.answer st.condition) := by
  constructor
  · rintro ⟨a, e, ⟨hd, ha, p, hp, rfl⟩, ⟨hm, q, he, hq⟩, hc⟩
    obtain ⟨q', hq', rfl⟩ := List.mem_map.1 hp
    obtain rfl := Json.str.inj he
    exact ⟨hd, ⟨⟨a, ha, hm⟩, q', hq', hq⟩, hc⟩
  · rintro ⟨hd, ⟨⟨a, ha, hm⟩, q, hq, hqm⟩, hc⟩
    exact ⟨a, edgeOf st (.str q), ⟨hd, ha, _, List.mem_map_of_mem hq, rfl⟩,
      ⟨hm, q, rfl, hqm⟩, hc⟩

/-- **What is compiled and what is written rest on the same basis.** -/
theorem ofSnapshot_basis {s : Snapshot} (hs : s.Textual) (ho : (ofSnapshot s).outcome = .ok g)
    (x : Setting) : g.basis x = s.basis x := by
  have h := ofSnapshot_compiled hs ho
  have hfacts (deny : Bool) (p : String) (Q : Except String Bool → Prop) :
      (∃ a e, g.Holds deny p a e ∧ x.Meets a e ∧ Q (x.answer e.conditions)) ↔
        ∃ st patterns, Speaks s.principals s.resources p st patterns ∧ deny = st.isDeny ∧
          x.Matches st.actions patterns ∧ Q (x.answer st.condition) := by
    constructor
    · rintro ⟨a, e, he, hm, hq⟩
      obtain ⟨st, patterns, hs, hk⟩ := (h.edges deny p a e).1 he
      exact ⟨st, patterns, hs, (meets_makes x st patterns deny Q).1 ⟨a, e, hk, hm, hq⟩⟩
    · rintro ⟨st, patterns, hs, hk⟩
      obtain ⟨a, e, hk, hm, hq⟩ := (meets_makes x st patterns deny Q).2 hk
      exact ⟨a, e, (h.edges deny p a e).2 ⟨st, patterns, hs, hk⟩, hm, hq⟩
  have hdeny (st : Statement) : true = st.isDeny ↔ st.effect = "Deny" := by
    unfold Statement.isDeny
    rw [eq_comm, decide_eq_true_iff]
  have hallow (st : Statement) : false = st.isDeny ↔ st.effect ≠ "Deny" := by
    unfold Statement.isDeny
    rw [eq_comm, decide_eq_false_iff_not]
  unfold basis Snapshot.basis
  congr 1
  · exact h.guardrails
  · funext p
    exact h.boundary p
  · funext p
    exact congrArg Json.textsOf (h.groups p)
  · funext p
    refine propext ((hfacts false p (· = .ok true)).trans ?_)
    simp only [hallow]
  · funext p
    refine propext ((hfacts true p (· ≠ .ok false)).trans ?_)
    simp only [hdeny]

/-- **Compilation preserves meaning.**  On the graph of a snapshot every request is decided, and
as the documents of the snapshot say. -/
theorem permits_ofSnapshot {s : Snapshot} {g : Graph} (hs : s.Textual)
    (ho : (ofSnapshot s).outcome = .ok g) (x : Setting) (p : String) :
    ∃ d, (g.decision x.evaluator x.request (.str p)).outcome = .ok d ∧
      (g.permits x.evaluator x.request (.str p)).outcome = .ok d.allowed ∧
      (s.basis x).Settles x p d ∧ (d.allowed = true ↔ (s.basis x).Permits x p) := by
  obtain ⟨d, hd, hset⟩ := decision_settles (ofSnapshot_compiled hs ho).textual x p
  rw [ofSnapshot_basis hs ho x] at hset
  refine ⟨d, hd, ?_, hset, hset.allowed_iff⟩
  rw [permits_outcome, hd]
  rfl

/-- A file whose policy names the staff, and a member of the staff. -/
def sharedFile : Snapshot where
  principals := [member]
  resources := [⟨.str "file", .other, "", "", "", some ⟨[⟨"Allow", ["read"], ["*"], .str "staff",
    .null, ""⟩], "", ""⟩⟩]
  guardrails := []
  attachments := []
  hierarchy := none
  collectedAt := ""
  account := ""
  regions := []

/-- The member may read the file. -/
theorem permits_ofSnapshot_sharedFile :
    let x : Setting := ⟨fun _ _ => .ok true, .empty, "read", "file"⟩
    sharedFile.Textual ∧ ∃ g, (ofSnapshot sharedFile).outcome = .ok g ∧
      (g.permits x.evaluator x.request (.str "member")).outcome = .ok true ∧
      (sharedFile.basis x).Permits x "member" := by
  intro x
  have hs : sharedFile.Textual := by
    constructor
    · intro P hP
      obtain rfl := List.mem_singleton.1 hP
      exact ⟨_, rfl⟩
    · intro P hP
      obtain rfl := List.mem_singleton.1 hP
      exact member_groups
    · intro R hR
      obtain rfl := List.mem_singleton.1 hR
      exact ⟨_, rfl⟩
  obtain ⟨g, hg⟩ : ∃ g, (ofSnapshot sharedFile).outcome = .ok g := ⟨_, rfl⟩
  obtain ⟨d, -, hd, -, hp⟩ := permits_ofSnapshot hs hg x "member"
  have hrun : ((ofSnapshot sharedFile).outcome.map fun g =>
      (g.permits x.evaluator x.request (.str "member")).outcome) = .ok (.ok true) := by rfl
  rw [hg] at hrun
  have hok : (g.permits x.evaluator x.request (.str "member")).outcome = .ok true :=
    Except.ok.inj hrun
  refine ⟨hs, g, hg, hok, hp.1 ?_⟩
  rw [hd] at hok
  exact Except.ok.inj hok

end Graph
end CloudAccess
