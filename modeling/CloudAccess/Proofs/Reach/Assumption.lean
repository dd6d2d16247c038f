import CloudAccess.Proofs.Graph.Readers
import CloudAccess.Proofs.Reach.Sessions

/-!
# Stepping into a role

Whoever looks up a role finds the record that counts, also after an earlier one was replaced: every
principal is recorded under the name that its record gives, and no name twice (`Graph.Filed`).  A
change keeps this, and so it holds of every graph that is built, by calls or from a snapshot.  The
roles that someone can step into are then told by the readers of the graph alone:

    r is one of them ↔ r ≠ p, the record of r is that of a role, and p may assume r by name, or
      r trusts the account of p, which is no root, and p is permitted to assume r
                                                                          (Graph.rolesFor_exact)

They come in strictly ascending order, each once, whatever trust was recorded twice or with names
that are no roles.

* `Graph.filed_of_change`, `Graph.filed_of_run`, `Graph.filed_of_snapshot`: every graph is filed.
* `Graph.Filed.hasRole_iff`: a name is that of a role when its record says so.
-/

namespace CloudAccess.Graph

open Condition (Evaluator)

/-! ## Records and their names -/

/-- Every principal is recorded under the name that its record gives, and no name twice. -/
structure Filed (g : Graph) : Prop where
  named : ∀ e ∈ g.principals.entries, e.2.arn.key? = some e.1.key
  distinct : g.principals.Distinct

theorem filed_empty (guardrails : List Document) : ({ empty with guardrails } : Graph).Filed where
  named _ he := absurd he List.not_mem_nil
  distinct := List.Pairwise.nil

namespace Filed

variable {g g' : Graph}

theorem congr (h : g.Filed) (hp : g'.principals = g.principals) : g'.Filed where
  named := hp ▸ h.named
  distinct := hp ▸ h.distinct

/-- A record may be added, or take the place of one of its name. -/
theorem insert (h : g.Filed) {id : Identifier} {P : Principal} (hP : P.arn.key? = some id.key)
    (hp : g'.principals = g.principals.insert id P) : g'.Filed where
  named e he := by
    rw [hp] at he
    rcases OrderedMap.mem_entries_insert he with ⟨hid, rfl⟩ | he
    · rw [hP, Identifier.beq_iff.1 hid]
    · exact h.named e he
  distinct := by
    rw [hp]
    exact h.distinct.alter id _

theorem of_onlyGrants (h : g.Filed) (hg : g.OnlyGrants g') : g'.Filed := by
  rcases hg.principals with hp | ⟨-, hp⟩
  · exact h.congr hp
  · exact h.insert rfl hp

/-- A name is that of a role when its record says so. -/
theorem hasRole_iff (h : g.Filed) (r : String) :
    g.HasRole r ↔ ∃ P, g.principal? r = some P ∧ P.kind = .role := by
  constructor
  · rintro ⟨-, P, hP, harn, hkind⟩
    obtain ⟨e, he, rfl⟩ := List.mem_map.1 hP
    have hkey : e.1.key = (Identifier.text r).key := by
      have hnamed := h.named e he
      rw [harn] at hnamed
      exact (Option.some.inj hnamed).symm
    refine ⟨e.2, ?_, hkind⟩
    rw [principal?, ← OrderedMap.get?_congr _ (Identifier.beq_iff.2 hkey)]
    exact h.distinct.get? he
  · rintro ⟨P, hP, hkind⟩
    refine ⟨Option.isSome_of_eq_some hP, P, OrderedMap.mem_values_of_get? hP, ?_, hkind⟩
    obtain ⟨e, he, hid, rfl⟩ := OrderedMap.mem_entries_of_get? hP
    refine Json.eq_str_of_key? ?_
    rw [h.named e he, Identifier.beq_iff.1 hid]
    rfl

end Filed

/-! ## Every graph is filed -/

variable {g : Graph}

theorem filed_of_change (h : g.Filed) (c : Change) : (c.apply g).Filed := by
  cases c with
  | principal P =>
    show ((g.insertPrincipal P).toOption.getD g).Filed
    unfold insertPrincipal
    cases hid : Identifier.ofJson P.arn with
    | error f => exact h
    | ok id => exact h.insert (Identifier.key_of_ofJson hid) rfl
  | resource R =>
    show ((g.insertResource R).toOption.getD g).Filed
    unfold insertResource
    cases Identifier.ofJson R.arn with
    | error f => exact h
    | ok id => exact h.congr rfl
  | edge owner action deny e =>
    exact h.congr (OnlyEdges.insertEdge g owner action deny e).principals
  | trust trustor role => exact h.congr rfl
  | guardrail d => exact h.congr rfl
  | identityPolicy owner d => exact h.congr (OnlyEdges.addIdentityPolicy g owner d).principals
  | trustPolicy role d =>
    show (g.addTrustPolicy role d).1.Filed
    rw [addTrustPolicy_fst]
    exact h.congr rfl
  | resourcePolicy r d => exact h.of_onlyGrants (.addResourceStatements r d.statements g)

theorem filed_of_run {ev : Evaluator} {s : Session} (h : s.graph.Filed) (calls : List Call) :
    (s.run ev calls).graph.Filed := by
  induction calls generalizing s with
  | nil => exact h
  | cons call rest ih =>
    refine ih (s := s.step ev call) ?_
    rcases Session.graph_of_step ev s call with ⟨c, rfl, hgraph⟩ | hgraph
    · exact hgraph ▸ filed_of_change h c
    · exact hgraph ▸ h

theorem filed_of_snapshot {s : Snapshot} (ho : (ofSnapshot s).outcome = .ok g) : g.Filed := by
  obtain ⟨g₁, hprincipals, hresources⟩ := ofSnapshot_ok ho
  have h₁ : g₁.Filed := by
    refine foldlM_preserves (fun g g' P _ h hadd => ?_) (filed_empty s.applicable) hprincipals
    rw [addPrincipal_outcome] at hadd
    obtain ⟨id, hid, rfl⟩ := map_eq_ok hadd
    let recorded : Graph := { g with principals := g.principals.insert id P }
    obtain ⟨trust, htrust⟩ := addTrustOf_eq (recorded.addIdentityPolicies id P.policies).1 id P
    refine h.insert (Identifier.key_of_ofJson (mapError_eq_ok hid)) ?_
    rw [htrust]
    exact (OnlyEdges.addIdentityPolicies recorded id P.policies).principals
  refine foldlM_preserves (fun g g' R _ h hadd => ?_) h₁ hresources
  rw [addResource_outcome] at hadd
  obtain ⟨id, -, hadd⟩ := bind_eq_ok hadd
  obtain ⟨n, -, rfl⟩ := map_eq_ok hadd
  let recorded : Graph := { g with resources := g.resources.insert id R }
  exact Filed.of_onlyGrants (g := recorded) (h.congr rfl)
    (.addResourceStatements R.arn R.statements recorded)

/-! ## Top theorem -/

/-- **The roles that someone can step into.**  From a new engine they are listed in strictly
ascending order.  They are the names other than their own whose record is that of a role, and which
they may assume: by name or because the role trusts everyone, or, if they belong to an account and
are not its root, because the role trusts the account and they are permitted to assume it. -/
theorem rolesFor_exact (hg : g.Textual) (hf : g.Filed) (ev : Evaluator) (c : Context) (p : String) :
    ∃ rs : List String,
      (g.rolesFor ev ((Viewpoint.ofContext c).trustOn g) c p).outcome = .ok (rs.map .text) ∧
      rs.Pairwise (· < ·) ∧
      ∀ r, r ∈ rs ↔ r ≠ p ∧ (∃ P, g.principal? r = some P ∧ P.kind = .role) ∧
        (g.mayAssume (.str p) r = true ∨ ∃ account, Arn.account? p = some account ∧
          Arn.isAccountRoot p = false ∧ "arn:aws:iam::" ++ account ++ ":root" ∈ g.trustors r ∧
          (g.permits ev ⟨assumeRole, .str r, c⟩ (.str p)).outcome = .ok true) := by
  obtain ⟨t, htrust, -, hroles⟩ := rolesFor_textual hg
  obtain ⟨rs, hrs, hsorted, hmem⟩ := hroles ev c p
  refine ⟨rs, ?_, hsorted, fun r => ?_⟩
  · rw [Viewpoint.trustOn_ofContext, htrust]
    exact hrs
  · rw [hmem, MayEnter, hf.hasRole_iff, mayAssume, admits_iff, or_assoc]
    rfl

/-- A user of an account. -/
def accountReader : String := "arn:aws:iam::123456789012:user/reader"

/-- One role trusts everyone, two trust the account of the reader, who may assume the inner one; the
former role trusts the reader, but is a user by now. -/
def accountRoles : Graph :=
  let root := "arn:aws:iam::123456789012:root"
  let record (name : String × PrincipalKind) : Identifier × Principal :=
    (name.1, { role with arn := .str name.1, kind := name.2 })
  { empty with
    principals := ⟨[(accountReader, .user), ("open", .role), ("inner", .role), ("outer", .role),
      ("former", .user)].map record⟩
    allows := EdgeIndex.add .empty accountReader assumeRole ⟨.str "inner", .null, ""⟩
    trust := ⟨[("open", ["*"]), ("inner", [root]), ("outer", [root]),
      ("former", [accountReader])]⟩ }

theorem accountRoles_filed : accountRoles.Filed where
  named e he := by
    obtain ⟨name, -, rfl⟩ := List.mem_map.1 he
    rfl
  distinct := by
    unfold OrderedMap.Distinct
    decide

theorem accountRoles_textual : accountRoles.Textual := by
  have hprincipals : ({ empty with principals := accountRoles.principals } : Graph).Textual := by
    refine ⟨fun P hP => ?_, fun P hP q hq => ?_, (textual_empty []).patterns⟩
    · obtain ⟨e, he, rfl⟩ := List.mem_map.1 hP
      obtain ⟨name, -, rfl⟩ := List.mem_map.1 he
      exact ⟨name.1, rfl⟩
    · obtain ⟨e, he, rfl⟩ := List.mem_map.1 hP
      obtain ⟨name, -, rfl⟩ := List.mem_map.1 he
      exact absurd hq List.not_mem_nil
  have hedge := hprincipals.insertEdge accountReader assumeRole false
    (e := ⟨.str "inner", .null, ""⟩) ⟨"inner", rfl⟩
  exact hedge.congr rfl rfl rfl

/-- The reader can step into the open role and into the inner one, but into no other one. -/
theorem rolesFor_exact_accountRoles :
    accountRoles.Textual ∧ accountRoles.Filed ∧ ∃ rs : List String,
      (accountRoles.rolesFor Condition.standard
        ((Viewpoint.ofContext .empty).trustOn accountRoles) .empty accountReader).outcome =
          .ok (rs.map .text) ∧
      rs.Pairwise (· < ·) ∧ "open" ∈ rs ∧ "inner" ∈ rs ∧ "outer" ∉ rs ∧ "former" ∉ rs := by
  obtain ⟨rs, hrs, hsorted, hmem⟩ :=
    rolesFor_exact accountRoles_textual accountRoles_filed Condition.standard .empty accountReader
  refine ⟨accountRoles_textual, accountRoles_filed, rs, hrs, hsorted, ?_, ?_, ?_, ?_⟩
  · exact (hmem "open").2 ⟨by decide, ⟨_, rfl, rfl⟩, .inl rfl⟩
  · have hpermits : (accountRoles.permits Condition.standard ⟨assumeRole, .str "inner", .empty⟩
        (.str accountReader)).outcome = .ok true := by
      cbv
    have hroot : "arn:aws:iam::" ++ "123456789012" ++ ":root" ∈ accountRoles.trustors "inner" :=
      List.mem_singleton.2 (by decide)
    refine (hmem "inner").2 ⟨by decide, ⟨_, rfl, rfl⟩, .inr ⟨_, ?_, ?_, hroot, hpermits⟩⟩
    · cbv
    · cbv
  · intro houter
    have hdenied : (accountRoles.permits Condition.standard ⟨assumeRole, .str "outer", .empty⟩
        (.str accountReader)).outcome = .ok false := by
      cbv
    obtain ⟨-, -, hbyName | ⟨_, -, -, -, hpermits⟩⟩ := (hmem "outer").1 houter
    · cases (show false = true from hbyName)
    · cases hdenied.symm.trans hpermits
  · intro hformer
    obtain ⟨-, ⟨P, hP, hkind⟩, -⟩ := (hmem "former").1 hformer
    obtain rfl := Option.some.inj hP
    cases hkind

end CloudAccess.Graph
