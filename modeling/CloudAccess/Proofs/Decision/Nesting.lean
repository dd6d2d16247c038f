import CloudAccess.Proofs.Decision.Meaning
import CloudAccess.Proofs.Decision.Undecided
import CloudAccess.Proofs.Paired

/-!
# Groups of groups

A principal's request is decided with its own groups, and for each of these once more without the
layer of groups.  So the groups of a group never grant anything.  But the layer of denials looks
at the groups of whomever it decides for, also when that is a group: a group grants nothing that
is denied to one of its own groups.

`Graph.RegroupedBeside` relates graphs that differ in the groups of others than one principal.  On
both that principal has the same basis, up to what its groups are denied by theirs:

    g.RegroupedBeside u g' → (the decisions are the same ↔
      some group offers the request and none of its groups is denied it,
      in `g` as in `g'`)                                              (decision_of_regrouped)
-/

namespace CloudAccess

namespace Basis

variable (b : Basis) (x : Setting)

/-- A group grants the request, as far as its own groups have no say in it. -/
def Offers (q : String) : Prop :=
  b.Lets x q .organization ∧ b.Lets x q .boundary ∧ b.Lets x q .session ∧ ¬ b.denies q ∧ b.allows q

/-- A request is inherited from a group that offers it and whose groups are not denied it. -/
theorem inherits_iff (p : String) : b.Inherits x p ↔
    ∃ q ∈ b.groups p, b.Offers x q ∧ ∀ r ∈ b.groups q, ¬ b.denies r := by
  unfold Inherits
  refine exists_congr fun q => and_congr .rfl ?_
  unfold Clear Layer.guards Offers
  simp only [List.forall_mem_cons, List.not_mem_nil, false_implies, implies_true, and_true]
  constructor
  · rintro ⟨⟨horganization, hboundary, hsession, hown, hgroups⟩, hallows⟩
    exact ⟨⟨horganization, hboundary, hsession, hown, hallows⟩, hgroups⟩
  · rintro ⟨⟨horganization, hboundary, hsession, hown, hallows⟩, hgroups⟩
    exact ⟨⟨horganization, hboundary, hsession, hown, hgroups⟩, hallows⟩

/-- The same basis with other groups. -/
def regrouped (groups : String → List String) : Basis := { b with groups }

variable {b x} {groups : String → List String} {u : String} (hu : groups u = b.groups u)

include hu

/-- To a principal that keeps its groups every layer but that of the groups is the same. -/
theorem lets_regrouped (l : Layer) : (b.regrouped groups).Lets x u l ↔ b.Lets x u l := by
  cases l with
  | denials =>
    show (¬ b.denies u ∧ ∀ q ∈ groups u, ¬ b.denies q) ↔ _
    rw [hu]
    rfl
  | _ => exact .rfl

theorem clear_regrouped : (b.regrouped groups).Clear x u ↔ b.Clear x u :=
  forall₂_congr fun l _ => lets_regrouped hu l

theorem inherits_regrouped : (b.regrouped groups).Inherits x u ↔
    ∃ q ∈ b.groups u, b.Offers x q ∧ ∀ r ∈ groups q, ¬ b.denies r := by
  rw [inherits_iff]
  show (∃ q ∈ groups u, b.Offers x q ∧ ∀ r ∈ groups q, ¬ b.denies r) ↔ _
  rw [hu]

/-- Other groups make a difference only where it is left to the groups to decide. -/
theorem Settles.regrouped {d d' : Decision} (h : b.Settles x u d)
    (h' : (b.regrouped groups).Settles x u d') : d' = d ↔ (b.Clear x u → ¬ b.allows u →
      ((b.regrouped groups).Inherits x u ↔ b.Inherits x u)) := by
  have settled {d : Decision} (hd : (b.regrouped groups).Settles x u d) : d' = d := h'.unique hd
  have hclear := clear_regrouped (x := x) hu
  cases h with
  | blocked before l after hg hk hl =>
    refine iff_of_true (settled (.blocked before l after hg ?_ ?_)) fun hc => ?_
    · exact fun k hk' => (lets_regrouped hu k).2 (hk k hk')
    · exact fun hl' => hl ((lets_regrouped hu l).1 hl')
    · exact absurd (hc l (by rw [hg]; simp)) hl
  | granted hc ha =>
    exact iff_of_true (settled (.granted (hclear.2 hc) ha)) fun _ hna => absurd ha hna
  | inherited hc ha hi =>
    constructor
    · intro hd _ _
      refine iff_of_true (Classical.byContradiction fun hni => ?_) hi
      rw [settled (.implicit (hclear.2 hc) ha hni)] at hd
      cases hd
    · intro hsame
      exact settled (.inherited (hclear.2 hc) ha ((hsame hc ha).2 hi))
  | implicit hc ha hni =>
    constructor
    · intro hd _ _
      refine iff_of_false (fun hi => ?_) hni
      rw [settled (.inherited (hclear.2 hc) ha hi)] at hd
      cases hd
    · intro hsame
      exact settled (.implicit (hclear.2 hc) ha fun hi => hni ((hsame hc ha).1 hi))

end Basis

namespace Graph

/-! ## Other groups for other principals -/

/-- Two graphs are the same but for the groups of others than one principal. -/
structure RegroupedBeside (u : String) (g g' : Graph) : Prop where
  principals : g.principals.Paired (fun id P P' =>
    P' = { P with groups := P'.groups } ∧ ((id == Identifier.text u) = true → P' = P)) g'.principals
  rest : g' = { g with principals := g'.principals }

namespace RegroupedBeside

variable {u : String} {g g' : Graph}

theorem boundary (h : g.RegroupedBeside u g') (p : String) :
    (g'.principal? p).bind Principal.boundary = (g.principal? p).bind Principal.boundary := by
  have hget := h.principals.get? (Identifier.text p)
  unfold principal?
  generalize g.principals.get? _ = P, g'.principals.get? _ = P' at hget ⊢
  cases hget with
  | none => rfl
  | some hP =>
    obtain ⟨-, -, hP, -⟩ := hP
    rw [hP]
    rfl

theorem groups (h : g.RegroupedBeside u g') : g'.groupsOf u = g.groupsOf u := by
  have hget := h.principals.get? (Identifier.text u)
  unfold groupsOf principal?
  generalize g.principals.get? _ = P, g'.principals.get? _ = P' at hget ⊢
  cases hget with
  | none => rfl
  | some hP =>
    obtain ⟨id, hid, -, hsame⟩ := hP
    rw [hsame hid]

/-- The bases of the graphs differ in groups only. -/
theorem basis (h : g.RegroupedBeside u g') (x : Setting) :
    g'.basis x = (g.basis x).regrouped (g'.basis x).groups := by
  have hboundary := h.boundary
  rw [h.rest] at hboundary ⊢
  unfold Graph.basis Basis.regrouped
  congr 1
  funext p
  exact hboundary p

end RegroupedBeside

/-! ## Top theorem -/

/-- **Groups of groups only take away.**  The decision on a principal stays the same under other
groups of others exactly if it is not left to its groups, or some group offers the request past
the denials of that group's groups both before and after.  With no group of a group more, what was
permitted stays permitted. -/
theorem decision_of_regrouped {u : String} {g g' : Graph} (h : g.RegroupedBeside u g')
    (hg : g.Textual) (hg' : g'.Textual) (x : Setting) :
    let b := g.basis x
    let groups' := (g'.basis x).groups
    ((g'.decision x.evaluator x.request (.str u)).outcome =
        (g.decision x.evaluator x.request (.str u)).outcome ↔
      (b.Clear x u → ¬ b.allows u →
        ((∃ q ∈ b.groups u, b.Offers x q ∧ ∀ r ∈ groups' q, ¬ b.denies r) ↔
          ∃ q ∈ b.groups u, b.Offers x q ∧ ∀ r ∈ b.groups q, ¬ b.denies r))) ∧
    ((∀ q ∈ b.groups u, groups' q ⊆ b.groups q) →
      (g.permits x.evaluator x.request (.str u)).outcome = .ok true →
      (g'.permits x.evaluator x.request (.str u)).outcome = .ok true) := by
  intro b groups'
  have hu : groups' u = b.groups u := congrArg Json.textsOf h.groups
  obtain ⟨d, ho, hd⟩ := decision_settles hg x u
  obtain ⟨d', ho', hd'⟩ := decision_settles hg' x u
  rw [h.basis x] at hd'
  refine ⟨?_, fun hfewer hpermitted => ?_⟩
  · rw [ho, ho', Except.ok.injEq, hd.regrouped hu hd', Basis.inherits_regrouped hu,
      Basis.inherits_iff]
  · rw [permits_outcome, ho] at hpermitted
    rw [permits_outcome, ho']
    refine congrArg Except.ok (hd'.allowed_iff.2 ?_)
    obtain ⟨hclear, hallowed⟩ := hd.allowed_iff.1 (Except.ok.inj hpermitted)
    refine ⟨(Basis.clear_regrouped hu).2 hclear, hallowed.imp_right fun hi => ?_⟩
    rw [Basis.inherits_regrouped hu]
    obtain ⟨q, hq, hoffers, hnone⟩ := (Basis.inherits_iff _ _ _).1 hi
    exact ⟨q, hq, hoffers, fun r hr => hnone r (hfewer q hq hr)⟩

/-- A member of the staff.  The staff may do anything, and is in some groups itself; to outsiders
everything is denied. -/
def staffIn (groups : List Json) : Graph :=
  let staff : Principal := { member with arn := .str "staff", kind := .group, groups }
  let principals : OrderedMap Identifier Principal := .ofList
    [("member", { member with groups := [.str "staff"] }), ("staff", staff)]
  let g := ({ empty with principals } : Graph).insertEdge "staff" "*" false ⟨.str "*", .null, ""⟩
  g.insertEdge "outsiders" "*" true ⟨.str "*", .null, ""⟩

theorem staffIn_regrouped (groups groups' : List Json) :
    (staffIn groups).RegroupedBeside "member" (staffIn groups') where
  principals := by
    have hother : ¬ (Identifier.text "staff" == Identifier.text "member") = true := by decide
    exact .cons ⟨rfl, rfl, fun _ => rfl⟩ (.cons ⟨rfl, rfl, fun h => absurd h hother⟩ .nil)
  rest := rfl

theorem staffIn_textual {groups : List Json} (h : ∀ q ∈ groups, ∃ a, q = .str a) :
    (staffIn groups).Textual := by
  have hmember : ∀ q ∈ [Json.str "staff"], ∃ a, q = .str a := fun q hq =>
    ⟨"staff", List.mem_singleton.1 hq⟩
  have hprincipals := ((textual_empty []).insertPrincipal "member"
    (p := { member with groups := [.str "staff"] }) ⟨_, rfl⟩ hmember).insertPrincipal "staff"
    (p := { member with arn := .str "staff", kind := .group, groups }) ⟨_, rfl⟩ h
  exact (hprincipals.insertEdge "staff" "*" false ⟨"*", rfl⟩).insertEdge "outsiders" "*" true
    ⟨"*", rfl⟩

/-- The member keeps what the staff may do when the staff is taken out of the group of guests. -/
theorem decision_of_regrouped_staffIn :
    let x : Setting := ⟨decidesNull, .empty, "read", "file"⟩
    (staffIn [.str "guests"]).RegroupedBeside "member" (staffIn []) ∧
      (staffIn [.str "guests"]).Textual ∧ (staffIn []).Textual ∧
      ((staffIn [.str "guests"]).permits x.evaluator x.request (.str "member")).outcome =
        .ok true ∧
      ((staffIn []).permits x.evaluator x.request (.str "member")).outcome = .ok true := by
  intro x
  have h := staffIn_regrouped [.str "guests"] []
  have hg : (staffIn [.str "guests"]).Textual := staffIn_textual fun q hq =>
    ⟨"guests", List.mem_singleton.1 hq⟩
  have hg' : (staffIn []).Textual := staffIn_textual fun q hq => absurd hq List.not_mem_nil
  refine ⟨h, hg, hg', rfl, (decision_of_regrouped h hg hg' x).2 (fun q hq => ?_) rfl⟩
  obtain rfl : q = "staff" := List.mem_singleton.1 hq
  exact List.nil_subset _

/-- Groups of groups count: a member is no longer allowed what the staff may do once the staff is
a group of outsiders. -/
theorem decision_not_stable_under_regrouping :
    let r : Request := ⟨"read", .str "file", .empty⟩
    (staffIn []).RegroupedBeside "member" (staffIn [.str "outsiders"]) ∧
      ((staffIn []).decision decidesNull r (.str "member")).outcome = .ok ⟨true, some .groups⟩ ∧
      ((staffIn [.str "outsiders"]).decision decidesNull r (.str "member")).outcome =
        .ok .implicit :=
  ⟨staffIn_regrouped _ _, rfl, rfl⟩

end Graph
end CloudAccess
