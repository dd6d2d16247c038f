import CloudAccess.Proofs.Graph.Frames
import CloudAccess.Proofs.Graph.Readers

/-!
# What compiling a policy adds

Compiling a policy adds to the ends of lists.  Edges and trustors that were there stay where they
are, and nothing but edges, trustors and the principal that stands for everyone is touched
(`Graph.GoesOn`).  How many edges there are afterwards is told statement by statement:

    (g.insertEdge o a deny e).total d = g.total d + if deny = d then 1 else 0   (total_insertEdge)
    (g.addStatement o s ps).total d = g.total d + s.share d (edgeCount s ps)    (total_addStatement)

The sums over a document are the numbers that the compiler returns (`compile_counts`).
-/

namespace CloudAccess

/-! ## Definitions -/

namespace Graph

/-- The edges of an owner under an action pattern, in the order in which they were recorded. -/
def edgesOf (g : Graph) (deny : Bool) (owner : Identifier) (action : String) : List Edge :=
  (((g.index deny).of owner).get? action).getD []

/-- A graph goes on from another one: lists have grown at their ends, resources and organization
policies are the same. -/
structure GoesOn (g g' : Graph) : Prop where
  edges : ∀ deny owner action, g.edgesOf deny owner action <+: g'.edgesOf deny owner action
  trustors : ∀ role, g.trustors role <+: g'.trustors role
  resources : g'.resources = g.resources
  guardrails : g'.guardrails = g.guardrails

/-- How many edges deny, or allow. -/
def total (g : Graph) (deny : Bool) : Nat := (g.index deny).list.length

/-- How many edges a statement makes in the policy of a principal. -/
def madeForOwner (s : Statement) : Nat := s.actions.length * s.resources.length

/-- How many edges a statement makes in the policy of a resource. -/
def madeOn (r : String) (s : Statement) : Nat :=
  (ownersOf s).length * (s.actions.length * (confine r s.resources).length)

end Graph

/-- What a statement that makes so many edges adds to those that deny, or to those that allow. -/
def Statement.share (s : Statement) (deny : Bool) (made : Nat) : Nat :=
  if s.isDeny = deny then made else 0

/-- Principals with the one that stands for everyone behind them, if it is needed and not there. -/
def withEveryone (m : OrderedMap Identifier Principal) (needed : Bool) :
    OrderedMap Identifier Principal :=
  if needed && (m.get? Arn.anyone).isNone then ⟨m.entries ++ [(.text Arn.anyone, .everyone)]⟩ else m

/-! ## Maps -/

namespace OrderedMap

variable {κ : Type} [BEq κ]

/-- What is new comes last. -/
theorem insert_of_none {β : Type} {m : OrderedMap κ β} {k : κ} (h : m.get? k = none) (b : β) :
    m.insert k b = ⟨m.entries ++ [(k, b)]⟩ := by
  obtain ⟨entries⟩ := m
  unfold insert alter
  congr 1
  unfold get? at h
  induction entries with
  | nil => rfl
  | cons entry rest ih =>
    rw [lookup] at h
    split at h
    · cases h
    · next hk => rw [alterEntries, if_neg hk, ih h, List.cons_append]

theorem prefix_push [EquivBEq κ] {α : Type} (m : OrderedMap κ (List α)) (k k' : κ) (a : α) :
    (m.get? k').getD [] <+: ((m.push k a).get? k').getD [] := by
  unfold push
  rw [get?_alter]
  split
  · exact List.prefix_append _ _
  · exact List.prefix_rfl

end OrderedMap

theorem withEveryone_withEveryone (m : OrderedMap Identifier Principal) (a b : Bool) :
    withEveryone (withEveryone m a) b = withEveryone m (a || b) := by
  unfold withEveryone
  by_cases hnone : m.get? Arn.anyone = none
  · cases a with
    | false => simp
    | true =>
      have hsome : (m.insert (Identifier.text Arn.anyone) .everyone).get? Arn.anyone = some _ :=
        OrderedMap.get?_insert_self ..
      rw [OrderedMap.insert_of_none hnone] at hsome
      simp [hnone, hsome]
  · rw [← Option.isNone_iff_eq_none, Bool.not_eq_true] at hnone
    simp [hnone]

namespace Graph

/-! ## Lists that go on -/

theorem index_insertEdge (g : Graph) (owner : Identifier) (action : String) (deny d : Bool)
    (e : Edge) : (g.insertEdge owner action deny e).index d =
      if deny = d then (g.index d).add owner action e else g.index d := by
  cases deny <;> cases d <;> rfl

namespace GoesOn

variable {g g' g'' : Graph}

theorem refl (g : Graph) : g.GoesOn g :=
  ⟨fun _ _ _ => List.prefix_rfl, fun _ => List.prefix_rfl, rfl, rfl⟩

theorem trans (h : g.GoesOn g') (h' : g'.GoesOn g'') : g.GoesOn g'' where
  edges deny owner action := (h.edges deny owner action).trans (h'.edges deny owner action)
  trustors role := (h.trustors role).trans (h'.trustors role)
  resources := h'.resources.trans h.resources
  guardrails := h'.guardrails.trans h.guardrails

theorem foldl {β : Type} {step : Graph → β → Graph} (h : ∀ g b, GoesOn g (step g b))
    (bs : List β) (g : Graph) : g.GoesOn (bs.foldl step g) :=
  foldl_related refl trans (fun g b _ => h g b) g

theorem insertEdge (g : Graph) (owner : Identifier) (action : String) (deny : Bool) (e : Edge) :
    g.GoesOn (g.insertEdge owner action deny e) where
  edges d o a := by
    unfold edgesOf
    rw [index_insertEdge]
    split
    · rw [EdgeIndex.of_add]
      split
      · exact OrderedMap.prefix_push _ action a e
      · exact List.prefix_rfl
    · exact List.prefix_rfl
  trustors role := by
    unfold Graph.trustors
    rw [(OnlyEdges.insertEdge g owner action deny e).trust]
  resources := (OnlyEdges.insertEdge g owner action deny e).resources
  guardrails := (OnlyEdges.insertEdge g owner action deny e).guardrails

theorem addStatement (g : Graph) (owner : Identifier) (s : Statement) (patterns : List Json) :
    g.GoesOn (g.addStatement owner s patterns) :=
  foldl (fun g action => foldl (fun g p => insertEdge g owner action s.isDeny (edgeOf s p)) _ g) _ g

theorem grant (g : Graph) (s : Statement) (patterns : List Json) : g.GoesOn (g.grant s patterns) :=
  foldl (fun g owner => addStatement g (.text owner) s patterns) _ g

theorem ensureEveryone (g : Graph) (s : Statement) : g.GoesOn (g.ensureEveryone s).1 := by
  unfold Graph.ensureEveryone
  split
  · exact ⟨fun _ _ _ => List.prefix_rfl, fun _ => List.prefix_rfl, rfl, rfl⟩
  · exact refl g

theorem insertTrust (g : Graph) (trustor : String) (role : Identifier) :
    g.GoesOn (g.insertTrust trustor role) :=
  ⟨fun _ _ _ => List.prefix_rfl, fun _ => OrderedMap.prefix_push _ _ _ _, rfl, rfl⟩

theorem addIdentityPolicy (g : Graph) (owner : Identifier) (d : Document) :
    g.GoesOn (g.addIdentityPolicy owner d).1 := by
  rw [addIdentityPolicy_fst]
  exact foldl (fun g s => addStatement g owner s (s.resources.map .str)) _ g

theorem addTrustPolicy (g : Graph) (role : Identifier) (d : Document) :
    g.GoesOn (g.addTrustPolicy role d).1 :=
  foldl (fun g t => insertTrust g t role) _ g

theorem addResourcePolicy (g : Graph) (r : String) (d : Document) :
    g.GoesOn (g.addResourcePolicy (.str r) d).1 := by
  unfold Graph.addResourcePolicy
  rw [(addResourceStatements_str r d.statements g).1]
  exact foldl (fun g s => (ensureEveryone g s).trans (grant _ s _)) _ g

end GoesOn

/-! ## Numbers of edges -/

theorem total_insertEdge (g : Graph) (owner : Identifier) (action : String) (deny d : Bool)
    (e : Edge) : (g.insertEdge owner action deny e).total d =
      g.total d + if deny = d then 1 else 0 := by
  unfold total
  rw [index_insertEdge]
  split
  · exact EdgeIndex.length_list_add _ _ _ _
  · rfl

/-- What each step adds is added up. -/
theorem total_foldl {β : Type} {step : Graph → β → Graph} {made : β → Nat} {d : Bool}
    (h : ∀ g b, (step g b).total d = g.total d + made b) (bs : List β) (g : Graph) :
    (bs.foldl step g).total d = g.total d + (bs.map made).sum := by
  induction bs generalizing g with
  | nil => rfl
  | cons b rest ih =>
    rw [List.foldl_cons, ih, h, List.map_cons, List.sum_cons]
    omega

/-- What is made for each of some items adds up. -/
theorem sum_share_each {β : Type} (s : Statement) (d : Bool) (made : Nat) (bs : List β) :
    (bs.map fun _ => s.share d made).sum = s.share d (bs.length * made) := by
  unfold Statement.share
  split <;> simp

theorem total_addStatement (g : Graph) (owner : Identifier) (s : Statement) (patterns : List Json)
    (d : Bool) : (g.addStatement owner s patterns).total d =
      g.total d + s.share d (edgeCount s patterns) := by
  have hpattern (g : Graph) (action : String) (p : Json) :
      (g.insertEdge owner action s.isDeny (edgeOf s p)).total d = g.total d + s.share d 1 :=
    g.total_insertEdge owner action s.isDeny d (edgeOf s p)
  have haction (g : Graph) (action : String) :
      (patterns.foldl (fun g p => g.insertEdge owner action s.isDeny (edgeOf s p)) g).total d =
        g.total d + s.share d patterns.length := by
    rw [total_foldl fun g p => hpattern g action p, sum_share_each, Nat.mul_one]
  rw [addStatement, total_foldl haction, sum_share_each, edgeCount]

theorem total_ensureEveryone (g : Graph) (s : Statement) (d : Bool) :
    (g.ensureEveryone s).1.total d = g.total d := by
  unfold ensureEveryone
  split <;> rfl

theorem edgeCount_texts (s : Statement) :
    edgeCount s (s.resources.map .str) = madeForOwner s := by
  rw [edgeCount, List.length_map, madeForOwner]

theorem total_addIdentityPolicy (g : Graph) (owner : Identifier) (p : Document) (d : Bool) :
    (g.addIdentityPolicy owner p).1.total d =
      g.total d + (p.statements.map fun s => s.share d (madeForOwner s)).sum := by
  rw [addIdentityPolicy_fst]
  refine total_foldl (fun g s => ?_) p.statements g
  rw [total_addStatement, edgeCount_texts]

theorem total_addResourceStatement (r : String) (g : Graph) (s : Statement) (d : Bool) :
    (g.addResourceStatement r s).total d = g.total d + s.share d (madeOn r s) := by
  rw [addResourceStatement, grant, total_foldl fun g owner =>
    g.total_addStatement (.text owner) s _ d, total_ensureEveryone, sum_share_each, edgeCount,
    List.length_map, madeOn]

theorem total_addResourcePolicy (g : Graph) (r : String) (p : Document) (d : Bool) :
    (g.addResourcePolicy (.str r) p).1.total d =
      g.total d + (p.statements.map fun s => s.share d (madeOn r s)).sum := by
  unfold addResourcePolicy
  rw [(addResourceStatements_str r p.statements g).1]
  exact total_foldl (fun g s => total_addResourceStatement r g s d) p.statements g

/-! ## Sums over a document -/

section

variable (ss : List Statement) (made : Statement → Nat)

theorem sum_share_true :
    (ss.map fun s => s.share true (made s)).sum = ((ss.filter Statement.isDeny).map made).sum := by
  induction ss with
  | nil => rfl
  | cons s rest ih =>
    rw [List.map_cons, List.sum_cons, ih, List.filter_cons, Statement.share]
    cases s.isDeny <;> simp

theorem sum_share : (ss.map fun s => s.share false (made s)).sum +
    (ss.map fun s => s.share true (made s)).sum = (ss.map made).sum := by
  induction ss with
  | nil => rfl
  | cons s rest ih =>
    have hs : s.share false (made s) + s.share true (made s) = made s := by
      unfold Statement.share
      cases s.isDeny <;> simp
    simp only [List.map_cons, List.sum_cons]
    omega

end

/-- All edges that were made are counted, those of denials among the denials. -/
theorem sizes_of_total {g g' : Graph} {ss : List Statement} {made : Statement → Nat}
    (h : ∀ d, g'.total d = g.total d + (ss.map fun s => s.share d (made s)).sum) :
    g'.sizes.allows + g'.sizes.denies =
        g.sizes.allows + g.sizes.denies + (ss.map made).sum ∧
      g'.sizes.denies = g.sizes.denies + ((ss.filter Statement.isDeny).map made).sum := by
  have hallows : g'.sizes.allows = g.sizes.allows + _ := h false
  have hdenies : g'.sizes.denies = g.sizes.denies + _ := h true
  refine ⟨?_, by rw [hdenies, sum_share_true]⟩
  rw [hallows, hdenies, ← sum_share ss made]
  omega

/-! ## Numbers that are returned -/

/-- A fold that counts along counts what each step makes. -/
theorem foldl_snd {σ β : Type} {f : σ × Nat → β → σ × Nat} {made : β → Nat}
    (h : ∀ x b, (f x b).2 = x.2 + made b) (bs : List β) (x : σ × Nat) :
    (bs.foldl f x).2 = x.2 + (bs.map made).sum := by
  induction bs generalizing x with
  | nil => rfl
  | cons b rest ih => rw [List.foldl_cons, ih, h, List.map_cons, List.sum_cons, Nat.add_assoc]

theorem addIdentityPolicy_snd (g : Graph) (owner : Identifier) (d : Document) :
    (g.addIdentityPolicy owner d).2 = (d.statements.map madeForOwner).sum := by
  refine (foldl_snd (fun x s => ?_) d.statements (g, 0)).trans (Nat.zero_add _)
  rw [← edgeCount_texts]

theorem addResourcePolicy_outcome (g : Graph) (r : String) (d : Document) :
    (g.addResourcePolicy (.str r) d).2.outcome = .ok (d.statements.map (madeOn r)).sum := by
  unfold addResourcePolicy
  rw [(addResourceStatements_str r d.statements g).2]
  simp only [edgeCount, List.length_map]
  rfl

theorem principals_addResourcePolicy (g : Graph) (r : String) (d : Document) :
    (g.addResourcePolicy (.str r) d).1.principals =
      withEveryone g.principals (d.statements.any fun s => s.grantees.any Arn.isAnyone) := by
  have hstep (g : Graph) (s : Statement) : (g.addResourceStatement r s).principals =
      withEveryone g.principals (s.grantees.any Arn.isAnyone) := by
    unfold addResourceStatement
    rw [(OnlyEdges.grant _ _ _).principals]
    unfold ensureEveryone withEveryone principal?
    split
    · next h =>
      rw [Bool.and_eq_true, Option.isNone_iff_eq_none] at h
      exact OrderedMap.insert_of_none h.2 _
    · rfl
  unfold addResourcePolicy
  rw [(addResourceStatements_str r d.statements g).1]
  -- once everyone is there, no later statement adds it again
  induction d.statements generalizing g with
  | nil => rfl
  | cons s rest ih =>
    rw [List.foldl_cons, ih, hstep, withEveryone_withEveryone, List.any_cons]

/-! ## Top theorem -/

/-- **Compiling adds what it reports, and nothing else.**  The policy of a principal and that of a
resource add as many edges as they report, those of denials to the denials; a trust policy adds as
many trustors as it reports.  All of them leave what was there as it was, at the beginning of the
lists.  The only principal that is added is the one that stands for everyone, by the policy of a
resource that names everyone, where it was not there. -/
theorem compile_counts (g : Graph) (d : Document) :
    (∀ owner : Identifier, ∃ g' n, g.addIdentityPolicy owner d = (g', n) ∧ g.GoesOn g' ∧
      g'.principals = g.principals ∧ g'.trust = g.trust ∧
      g'.sizes.allows + g'.sizes.denies = g.sizes.allows + g.sizes.denies + n ∧
      g'.sizes.denies =
        g.sizes.denies + ((d.statements.filter Statement.isDeny).map madeForOwner).sum) ∧
    (∀ role : Identifier, ∃ g' n, g.addTrustPolicy role d = (g', n) ∧ g.GoesOn g' ∧
      g'.principals = g.principals ∧ g'.allows = g.allows ∧ g'.denies = g.denies ∧
      g'.sizes.trusts = g.sizes.trusts + n) ∧
    ∀ r : String, ∃ g' n, (g.addResourcePolicy (.str r) d).1 = g' ∧
      (g.addResourcePolicy (.str r) d).2.outcome = .ok n ∧ g.GoesOn g' ∧ g'.trust = g.trust ∧
      g'.principals = withEveryone g.principals
        (d.statements.any fun s => s.grantees.any Arn.isAnyone) ∧
      g'.sizes.allows + g'.sizes.denies = g.sizes.allows + g.sizes.denies + n ∧
      g'.sizes.denies =
        g.sizes.denies + ((d.statements.filter Statement.isDeny).map (madeOn r)).sum := by
  refine ⟨fun owner => ?_, fun role => ?_, fun r => ?_⟩
  · have honly := OnlyEdges.addIdentityPolicy g owner d
    obtain ⟨hall, hdenied⟩ := sizes_of_total (g.total_addIdentityPolicy owner d)
    rw [← g.addIdentityPolicy_snd owner d] at hall
    exact ⟨_, _, rfl, .addIdentityPolicy g owner d, honly.principals, honly.trust, hall, hdenied⟩
  · have hgoes := GoesOn.addTrustPolicy g role d
    rw [addTrustPolicy_fst] at hgoes
    exact ⟨_, _, Prod.ext (g.addTrustPolicy_fst role d) rfl, hgoes, rfl, rfl, rfl,
      OrderedMap.length_flatten_foldl_push g.trust role (trustorsOf d)⟩
  · obtain ⟨hall, hdenied⟩ := sizes_of_total (g.total_addResourcePolicy r d)
    exact ⟨_, _, rfl, g.addResourcePolicy_outcome r d, .addResourcePolicy g r d,
      (OnlyGrants.addResourceStatements (.str r) d.statements g).trust,
      g.principals_addResourcePolicy r d, hall, hdenied⟩

end Graph
end CloudAccess
