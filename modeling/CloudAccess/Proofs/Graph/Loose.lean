import CloudAccess.Proofs.Decision.Faults
import CloudAccess.Proofs.Graph.Agreement

/-!
# Snapshots whose identifiers are no texts

A snapshot may become a graph although some of its identifiers are no texts.  A request then has
an answer, or the fault of a record that `Snapshot.Blames` tells:

* a group of the principal's record that is no text;
* a group that is a list or an object, in the record of a group of the principal;
* a resource that is named by no text, whose policy has a statement without resource patterns.

Who holds a permission is asked of all principals, so one that is named by no text is enough for
a fault (`answers_of_ofJson`).

`Loaded` says what a graph has of the records that went into it when nothing is known about their
identifiers; a record more on both sides keeps it.
-/

namespace CloudAccess

/-! ## What is to blame -/

/-- A resource is named by no text, and a statement of its policy is about just that name. -/
def Resource.Unmatchable (R : Resource) : Prop :=
  (¬ ∃ a, R.arn = .str a) ∧ ∃ st ∈ R.statements, st.resources = []

/-- What in a snapshot can give a request of a principal a fault. -/
inductive Snapshot.Blames (s : Snapshot) (p : String) : Fault → Prop
  | group {P : Principal} {q : Json} : lastNamed s.principals p = some P → q ∈ P.groups →
      (¬ ∃ a, q = .str a) → Blames s p (.noOperation q.kind "endswith")
  | membership {P : Principal} {q : Json} : lastNamed s.principals p = some P → q ∈ P.groups →
      q.key? = none → Blames s p (.notKey q.kind)
  | inherited {P Q : Principal} {name : String} {q : Json} :
      lastNamed s.principals p = some P → .str name ∈ P.groups →
      lastNamed s.principals name = some Q → q ∈ Q.groups → q.key? = none →
      Blames s p (.notKey q.kind)
  | resource {R : Resource} : R ∈ s.resources → R.Unmatchable →
      Blames s p (.notPattern R.arn.kind)

/-- Where the names are texts nothing is to blame. -/
theorem Snapshot.Textual.not_blames {s : Snapshot} (hs : s.Textual) (p : String) (f : Fault) :
    ¬ s.Blames p f := by
  have hgroup {q : String} {P : Principal} (hP : lastNamed s.principals q = some P) {v : Json}
      (hv : v ∈ P.groups) : ∃ a, v = .str a :=
    hs.groups P (List.mem_reverse.1 (List.mem_of_find?_eq_some hP)) v hv
  intro h
  cases h with
  | group hP hq htext => exact htext (hgroup hP hq)
  | membership hP hq hkey =>
    obtain ⟨a, rfl⟩ := hgroup hP hq
    cases hkey
  | inherited _ _ hQ hq hkey =>
    obtain ⟨a, rfl⟩ := hgroup hQ hq
    cases hkey
  | resource hR hno => exact hno.1 (hs.resources _ hR)

namespace Graph

/-! ## What steps add -/

/-- A principal that was added is recorded, and its edges have texts for patterns. -/
theorem addPrincipal_adds {g g' : Graph} {P : Principal}
    (ho : (g.addPrincipal P).outcome = .ok g') :
    ∃ id, Identifier.ofJson P.arn = .ok id ∧ g'.principals = g.principals.insert id P ∧
      ∀ deny o a e, g'.Holds deny o a e → g.Holds deny o a e ∨ ∃ q, e.pattern = .str q := by
  rw [addPrincipal_outcome] at ho
  obtain ⟨id, hid, rfl⟩ := map_eq_ok ho
  let recorded : Graph := { g with principals := g.principals.insert id P }
  obtain ⟨trust, ht⟩ := addTrustOf_eq (recorded.addIdentityPolicies id P.policies).1 id P
  refine ⟨id, mapError_eq_ok hid, ?_, fun deny o a e hholds => ?_⟩
  · rw [ht]
    exact (OnlyEdges.addIdentityPolicies recorded id P.policies).principals
  · rw [ht] at hholds
    rcases (holds_addIdentityPolicies recorded id o P.policies deny a e).1 hholds with
      hold | ⟨d, -, st, -, -, -, -, p, hp, rfl⟩
    · exact .inl hold
    · obtain ⟨q, -, rfl⟩ := List.mem_map.1 hp
      exact .inr ⟨q, rfl⟩

/-- The policy of a resource records at most the one principal that stands for everyone. -/
theorem addResourceStatements_principals {kept : OrderedMap Identifier Principal → Prop}
    (heveryone : ∀ m, kept m → kept (m.insert Arn.anyone Principal.everyone)) (resource : Json)
    (ss : List Statement) (g : Graph) (h : kept g.principals) :
    kept (addResourceStatements resource ss g).1.principals := by
  rcases (OnlyGrants.addResourceStatements resource ss g).principals with hp | ⟨-, hp⟩
  · rwa [hp]
  · rw [hp]
    exact heveryone _ h

/-- A resource named by no text has no other patterns than its name. -/
theorem confineTo_not_text {v : Json} (hv : ¬ ∃ r, v = .str r) {resources : List String}
    {patterns : List Json} (h : (confineTo v resources).outcome = .ok patterns) :
    resources = [] ∧ patterns = [v] := by
  cases v with
  | str r => exact absurd ⟨r, rfl⟩ hv
  | _ =>
    cases resources with
    | nil => exact ⟨rfl, (Except.ok.inj h).symm⟩
    | cons q rest => cases h

/-- A resource that was added can be a key, and its edges have texts for patterns, or its name. -/
theorem addResource_adds {g g' : Graph} {R : Resource} (ho : (g.addResource R).outcome = .ok g') :
    R.arn.key? ≠ none ∧
      (∀ deny o a e, g'.Holds deny o a e → g.Holds deny o a e ∨ (∃ q, e.pattern = .str q) ∨
        (R.Unmatchable ∧ e.pattern = R.arn)) ∧
      ∀ {kept : OrderedMap Identifier Principal → Prop},
        (∀ m, kept m → kept (m.insert Arn.anyone Principal.everyone)) → kept g.principals →
        kept g'.principals := by
  have hextends := addResource_extends ho
  rw [addResource_outcome] at ho
  obtain ⟨id, hid, ho⟩ := bind_eq_ok ho
  obtain ⟨n, -, rfl⟩ := map_eq_ok ho
  refine ⟨?_, fun deny o a e hholds => ?_, fun heveryone h => ?_⟩
  · rw [Identifier.key_of_ofJson (mapError_eq_ok hid)]
    nofun
  · rcases (hextends.edges deny o a e).1 hholds with hold | ⟨st, hst, hwrites⟩
    · exact .inl hold
    · obtain ⟨patterns, hc, -, -, -, p, hp, rfl⟩ := hwrites
      by_cases htext : ∃ r, R.arn = .str r
      · obtain ⟨r, hr⟩ := htext
        rw [hr] at hc
        obtain rfl := Except.ok.inj hc
        obtain ⟨q, -, rfl⟩ := List.mem_map.1 hp
        exact .inr (.inl ⟨q, rfl⟩)
      · obtain ⟨hempty, rfl⟩ := confineTo_not_text htext hc
        exact .inr (.inr ⟨⟨htext, st, hst, hempty⟩, List.mem_singleton.1 hp⟩)
  · exact addResourceStatements_principals heveryone R.arn R.statements _ h

/-! ## Graphs and the records that went into them -/

/-- The principals of a graph are the recorded ones, and maybe everyone. -/
structure Roster (ps : List Principal) (m : OrderedMap Identifier Principal) : Prop where
  values : ∀ P ∈ m.values, P ∈ ps ∨ P = Principal.everyone
  /-- Under the key of a record there is a principal with that key. -/
  present : ∀ P ∈ ps, ∃ id, P.arn.key? = some id.key ∧
    ∃ P', m.get? id = some P' ∧ P'.arn.key? = some id.key

/-- What a graph has of its records, whatever identifies them. -/
structure Loaded (ps : List Principal) (rs : List Resource) (g : Graph) : Prop where
  groups : ∀ p, g.groupsOf p = ((lastNamed ps p).map Principal.groups).getD []
  edges : ∀ deny o a e, g.Holds deny o a e → (∃ q, e.pattern = .str q) ∨
    ∃ R ∈ rs, R.Unmatchable ∧ R.arn.key? ≠ none ∧ e.pattern = R.arn
  roster : Roster ps g.principals

theorem loaded_empty (gs : List Document) : Loaded [] [] { empty with guardrails := gs } where
  groups _ := rfl
  edges deny o a e h := absurd h (not_holds_empty gs deny o a e)
  roster := ⟨fun _ hP => absurd hP List.not_mem_nil, fun _ hP => absurd hP List.not_mem_nil⟩

/-- Under the key of a principal that is recorded there is one with that key, as there was under
the other keys. -/
theorem present_insert {m : OrderedMap Identifier Principal} {P : Principal} {id i : Identifier}
    (hid : Identifier.ofJson P.arn = .ok id)
    (h : (id == i) = false → ∃ P', m.get? i = some P' ∧ P'.arn.key? = some i.key) :
    ∃ P', (m.insert id P).get? i = some P' ∧ P'.arn.key? = some i.key := by
  by_cases hi : (id == i) = true
  · refine ⟨P, ?_, ?_⟩
    · rw [← OrderedMap.get?_congr _ hi, OrderedMap.get?_insert_self]
    · rw [Identifier.key_of_ofJson hid, Identifier.beq_iff.1 hi]
  · have hne := Bool.not_eq_true _ ▸ hi
    rw [OrderedMap.get?_insert_of_ne _ hne]
    exact h hne

variable {ps : List Principal} {rs : List Resource} {g g' : Graph}

theorem Roster.everyone {m : OrderedMap Identifier Principal} (h : Roster ps m) :
    Roster ps (m.insert Arn.anyone Principal.everyone) where
  values P hP := by
    rcases OrderedMap.mem_values_insert hP with rfl | hP
    · exact .inr rfl
    · exact h.values P hP
  present P hP := by
    obtain ⟨i, hi, hP'⟩ := h.present P hP
    exact ⟨i, hi, present_insert rfl fun _ => hP'⟩

theorem Roster.insert {m : OrderedMap Identifier Principal} (h : Roster ps m) {P : Principal}
    {id : Identifier} (hid : Identifier.ofJson P.arn = .ok id) :
    Roster (ps ++ [P]) (m.insert id P) where
  values Q hQ := by
    rcases OrderedMap.mem_values_insert hQ with rfl | hQ
    · exact .inl (List.mem_append_right _ (List.mem_singleton_self Q))
    · exact (h.values Q hQ).imp_left (List.mem_append_left _)
  present Q hQ := by
    rcases List.mem_append.1 hQ with hQ | hQ
    · obtain ⟨i, hi, hQ'⟩ := h.present Q hQ
      exact ⟨i, hi, present_insert hid fun _ => hQ'⟩
    · obtain rfl := List.mem_singleton.1 hQ
      refine ⟨id, Identifier.key_of_ofJson hid, present_insert hid fun hne => ?_⟩
      exact absurd BEq.rfl (Bool.not_eq_true _ ▸ hne)

/-- A principal more. -/
theorem Loaded.addPrincipal (h : Loaded ps rs g) {P : Principal}
    (ho : (g.addPrincipal P).outcome = .ok g') : Loaded (ps ++ [P]) rs g' := by
  obtain ⟨id, hid, hprincipals, hedges⟩ := addPrincipal_adds ho
  refine ⟨fun p => ?_, fun deny o a e hholds => ?_, ?_⟩
  · unfold groupsOf principal?
    rw [hprincipals, get?_insert_named _ hid, lastNamed_snoc]
    cases P.isNamed p with
    | true => rfl
    | false => exact h.groups p
  · rcases hedges deny o a e hholds with hold | htext
    · exact h.edges deny o a e hold
    · exact .inl htext
  · rw [hprincipals]
    exact h.roster.insert hid

/-- A resource more. -/
theorem Loaded.addResource (h : Loaded ps rs g) {R : Resource}
    (ho : (g.addResource R).outcome = .ok g') : Loaded ps (rs ++ [R]) g' := by
  obtain ⟨hkey, hedges, hkept⟩ := addResource_adds ho
  refine ⟨fun p => ?_, fun deny o a e hholds => ?_, hkept (fun m hm => hm.everyone) h.roster⟩
  · rw [(addResource_extends ho).groups]
    exact h.groups p
  · rcases hedges deny o a e hholds with hold | htext | ⟨hno, hpattern⟩
    · refine (h.edges deny o a e hold).imp_right ?_
      rintro ⟨R', hR', hblamed⟩
      exact ⟨R', List.mem_append_left _ hR', hblamed⟩
    · exact .inl htext
    · exact .inr ⟨R, List.mem_append_right _ (List.mem_singleton_self R), hno, hkey, hpattern⟩

theorem ofSnapshot_loaded {s : Snapshot} (ho : (ofSnapshot s).outcome = .ok g) :
    Loaded s.principals s.resources g := by
  obtain ⟨g₁, hp, hr⟩ := ofSnapshot_ok ho
  have h₁ : Loaded s.principals [] g₁ :=
    foldlM_compiles (P := fun ps g => Loaded ps [] g)
      (fun seen g g' P _ h => h.addPrincipal) (loaded_empty s.applicable) hp
  exact foldlM_compiles (P := fun rs g => Loaded s.principals rs g)
    (fun seen g g' R _ h => h.addResource) h₁ hr

/-! ## Who is to blame for a fault -/

variable {s : Snapshot} {x : Setting} {f : Fault}

/-- What a graph has for a group is in the last record of the name. -/
theorem Loaded.mem_groupsOf (h : Loaded ps rs g) {p : String} {q : Json} (hq : q ∈ g.groupsOf p) :
    ∃ P, lastNamed ps p = some P ∧ q ∈ P.groups := by
  rw [h.groups] at hq
  cases hP : lastNamed ps p with
  | none => rw [hP] at hq; exact absurd hq List.not_mem_nil
  | some P => rw [hP] at hq; exact ⟨P, rfl, hq⟩

/-- What is to blame in a graph is to blame in its records. -/
theorem Loaded.blames (h : Loaded s.principals s.resources g) {t p : String}
    (hblames : g.Blames t p f) : s.Blames p f := by
  cases hblames with
  | group hq htext =>
    obtain ⟨P, hP, hq⟩ := h.mem_groupsOf hq
    exact .group hP hq htext
  | membership hq hkey =>
    obtain ⟨P, hP, hq⟩ := h.mem_groupsOf hq
    exact .membership hP hq hkey
  | inherited hname hq hkey =>
    obtain ⟨P, hP, hname⟩ := h.mem_groupsOf hname
    obtain ⟨Q, hQ, hq⟩ := h.mem_groupsOf hq
    exact .inherited hP hname hQ hq hkey
  | edge hholds hcovers =>
    rcases h.edges _ _ _ _ hholds with ⟨q, hq⟩ | ⟨R, hR, hno, hkey, hpattern⟩
    · rw [hq] at hcovers
      cases hcovers
    · rw [hpattern, covers_not_text hno.1, if_pos (Option.isSome_iff_ne_none.2 hkey)] at hcovers
      obtain rfl := Except.error.inj hcovers
      exact .resource hR hno

theorem Loaded.decision (h : Loaded s.principals s.resources g) (x : Setting) (p : String) :
    (∃ d, (g.decision x.evaluator x.request (.str p)).outcome = .ok d) ∨
      ∃ f, (g.decision x.evaluator x.request (.str p)).outcome = .error f ∧ s.Blames p f := by
  cases ho : (g.decision x.evaluator x.request (.str p)).outcome with
  | ok d => exact .inl ⟨d, rfl⟩
  | error f => exact .inr ⟨f, rfl, h.blames (blames_of_decision ho)⟩

/-- Asking for all principals comes upon one that is named by no text, or upon what is to blame
for the fault of one that is. -/
theorem Loaded.holders (h : Loaded s.principals s.resources g)
    (ho : (g.holders x.evaluator x.context (.str x.target) x.action).outcome = .error f) :
    (∃ P ∈ s.principals, (¬ ∃ a, P.arn = .str a) ∧ f = .noOperation P.arn.kind "endswith") ∨
      ∃ p, (p = Arn.anyone ∨ ∃ P ∈ s.principals, P.arn = .str p) ∧ s.Blames p f := by
  obtain ⟨P, hP, hfault⟩ := holders_error ho
  have hrecorded := h.roster.values P hP
  rcases permits_error hfault with ⟨htext, rfl⟩ | ⟨p, hp, hdecision⟩
  · rcases hrecorded with hP | rfl
    · exact .inl ⟨P, hP, htext, rfl⟩
    · exact absurd ⟨_, rfl⟩ htext
  · refine .inr ⟨p, ?_, h.blames (blames_of_decision (x := x) hdecision)⟩
    rcases hrecorded with hP | rfl
    · exact .inr ⟨P, hP, hp⟩
    · exact .inl (Json.str.inj hp).symm

/-- All principals have been asked for only if each of them is named by a text. -/
theorem Loaded.texts_of_holders (h : Loaded s.principals s.resources g) {hs : List Principal}
    (ho : (g.holders x.evaluator x.context (.str x.target) x.action).outcome = .ok hs) :
    ∀ P ∈ s.principals, ∃ a, P.arn = .str a := by
  intro P hP
  obtain ⟨id, hid, P', hget, hkey⟩ := h.roster.present P hP
  obtain ⟨b, hpermits⟩ := permits_of_holders ho P' (OrderedMap.mem_values_of_get? hget)
  obtain ⟨a, d, ha, -⟩ := permits_ok hpermits
  rw [ha] at hkey
  exact ⟨a, Json.eq_str_of_key? (hid.trans hkey.symm)⟩

/-! ## Top theorem -/

/-- A graph of a record is the graph of the snapshot that the record is read as. -/
theorem ofJson_ok {record : Json} (ho : (ofJson record).outcome = .ok g) :
    ∃ s, Snapshot.decode record = .ok s ∧ (ofSnapshot s).outcome = .ok g := by
  cases record with
  | obj ms =>
    unfold ofJson at ho
    rw [Traced.outcome_bind, Traced.outcome_ofExcept] at ho
    exact bind_eq_ok ho
  | _ => cases ho

/-- **What a graph may fail to answer.**  A request to the graph of a record is answered, or has
the fault of a record that is to blame for it.  All principals can be asked for only if each is
named by a text, and then the same holds.  Where all identifiers are texts everything is
answered. -/
theorem answers_of_ofJson {record : Json} {g : Graph} (ho : (ofJson record).outcome = .ok g) :
    ∃ s, Snapshot.decode record = .ok s ∧ ∀ x : Setting,
      let asked (p : String) := (g.decision x.evaluator x.request (.str p)).outcome
      let holders := (g.holders x.evaluator x.context (.str x.target) x.action).outcome
      (∀ p, (∃ d, asked p = .ok d ∧
          (g.permits x.evaluator x.request (.str p)).outcome = .ok d.allowed) ∨
        ∃ f, asked p = .error f ∧ s.Blames p f) ∧
      ((∃ hs, holders = .ok hs ∧ ∀ P ∈ s.principals, ∃ a, P.arn = .str a) ∨
        ∃ f, holders = .error f ∧
          ((∃ P ∈ s.principals, (¬ ∃ a, P.arn = .str a) ∧
              f = .noOperation P.arn.kind "endswith") ∨
            ∃ p, (p = Arn.anyone ∨ ∃ P ∈ s.principals, P.arn = .str p) ∧ s.Blames p f)) ∧
      (s.Textual → (∀ p, ∃ d, asked p = .ok d) ∧ ∃ hs, holders = .ok hs) := by
  obtain ⟨s, hs, ho⟩ := ofJson_ok ho
  have h := ofSnapshot_loaded ho
  refine ⟨s, hs, fun x => ?_⟩
  intro asked holders
  refine ⟨fun p => ?_, ?_, fun htextual => ⟨fun p => ?_, ?_⟩⟩
  · refine (h.decision x p).imp_left ?_
    rintro ⟨d, hd⟩
    exact ⟨d, hd, by rw [permits_outcome, hd]; rfl⟩
  · cases hholders : holders with
    | ok hs => exact .inl ⟨hs, rfl, h.texts_of_holders hholders⟩
    | error f => exact .inr ⟨f, rfl, h.holders hholders⟩
  · rcases h.decision x p with hd | ⟨f, -, hblames⟩
    · exact hd
    · exact absurd hblames (htextual.not_blames p f)
  · cases hholders : holders with
    | ok hs => exact ⟨hs, rfl⟩
    | error f =>
      rcases h.holders hholders with ⟨P, hP, htext, -⟩ | ⟨p, -, hblames⟩
      · exact absurd (htextual.arns P hP) htext
      · exact absurd hblames (htextual.not_blames p f)

/-- The record of a snapshot with some principals and resources. -/
def recordOf (principals resources : List Json) : Json :=
  .obj [("Principals", .arr principals), ("Resources", .arr resources)]

/-- The record of a user in some groups. -/
def aliceIn (groups : List Json) : Json :=
  .obj [("ARN", .str "alice"), ("GroupMemberships", .arr groups)]

/-- Who is in a group given as an object is not answered, and that group is to blame; who is not
recorded is answered. -/
theorem answers_of_ofJson_aliceIn :
    let record := recordOf [aliceIn [.obj [("GroupName", .str "staff")]]] []
    let x : Setting := ⟨Condition.standard, .empty, "read", "file"⟩
    ∃ g s, (ofJson record).outcome = .ok g ∧ Snapshot.decode record = .ok s ∧
      (g.decision x.evaluator x.request (.str "alice")).outcome = .error (.notKey .obj) ∧
      s.Blames "alice" (.notKey .obj) ∧
      (g.decision x.evaluator x.request (.str "bob")).outcome = .ok .implicit := by
  intro record x
  obtain ⟨g, ho, halice, hbob⟩ : ∃ g, (ofJson record).outcome = .ok g ∧
      (g.decision x.evaluator x.request (.str "alice")).outcome = .error (.notKey .obj) ∧
      (g.decision x.evaluator x.request (.str "bob")).outcome = .ok .implicit :=
    ⟨_, rfl, rfl, rfl⟩
  obtain ⟨s, hs, hall⟩ := answers_of_ofJson ho
  refine ⟨g, s, ho, hs, halice, ?_, hbob⟩
  rcases (hall x).1 "alice" with ⟨d, hd, -⟩ | ⟨f, hf, hblames⟩
  · cases halice.symm.trans hd
  · obtain rfl := Except.error.inj (halice.symm.trans hf)
    exact hblames

/-- Graphs are made of records that give requests a fault: of a group that is an object or a
number, of a resource that is a number and has a statement about itself, and of a principal that
is named by null. -/
theorem unanswered_requests :
    let alone : Json := .obj [("ARN", .int 7), ("ResourcePolicy", .obj [("Statement",
      .obj [("Principal", .str "alice"), ("Action", .str "*")])])]
    let r : Request := ⟨"read", .str "file", .empty⟩
    let asked (principals resources : List Json) (f : Fault) :=
      ∃ g, (ofJson (recordOf principals resources)).outcome = .ok g ∧
        (g.permits Condition.standard r (.str "alice")).outcome = .error f
    asked [aliceIn [.obj [("GroupName", .str "staff")]]] [] (.notKey .obj) ∧
      asked [aliceIn [.int 7]] [] (.noOperation .int "endswith") ∧
      asked [] [alone] (.notPattern .int) ∧
      ∃ g, (ofJson (recordOf [.obj [("ARN", .null)]] [])).outcome = .ok g ∧
        (g.holders Condition.standard r.context r.resource r.action).outcome =
          .error (.noOperation .null "endswith") := by
  intro alone r asked
  exact ⟨⟨_, rfl, rfl⟩, ⟨_, rfl, rfl⟩, ⟨_, rfl, rfl⟩, ⟨_, rfl, rfl⟩⟩

end Graph
end CloudAccess
