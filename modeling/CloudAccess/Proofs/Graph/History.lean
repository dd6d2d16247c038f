import CloudAccess.Proofs.Graph.Compilation

/-!
# Graphs and how they were recorded

A graph is recorded call by call (`Graph.Entry`, `Graph.ofEntries`).  What it decides depends on
the facts among the entries only, not on their order, on repetitions or on the labels of edges:

    SameFacts es es' → both are recorded, and decide every request alike   (decision_of_sameFacts)

`Recorded` says what a graph knows of the entries that went into it; an entry more on both sides
keeps it (`Recorded.record`).  The organization's policies are a list, but only whether there are
any and the set of their statements counts, so a basis may get others (`Basis.reguarded`).
-/

namespace CloudAccess

namespace Graph

/-! ## Entries -/

/-- Something to be recorded in a graph. -/
inductive Entry where
  | principal (P : Principal)
  | resource (R : Resource)
  | edge (owner action : String) (deny : Bool) (pattern : String) (conditions : Json)
      (label : String)
  | trust (trustor role : String)
  | guardrail (d : Document)

namespace Entry

/-- The identifiers in an entry are texts. -/
def Named : Entry → Prop
  | principal P => (∃ a, P.arn = .str a) ∧ ∀ q ∈ P.groups, ∃ a, q = .str a
  | resource R => ∃ a, R.arn = .str a
  | _ => True

def principal? : Entry → Option Principal
  | principal P => some P
  | _ => none

def guardrail? : Entry → Option Document
  | guardrail d => some d
  | _ => none

/-- The principals among some entries. -/
def principals (es : List Entry) : List Principal := es.filterMap principal?

/-- The organization policies among some entries. -/
def guardrails (es : List Entry) : List Document := es.filterMap guardrail?

theorem principals_snoc (es : List Entry) (e : Entry) :
    principals (es ++ [e]) = principals es ++ e.principal?.toList := by
  unfold principals
  rw [List.filterMap_append]
  cases e <;> rfl

theorem guardrails_snoc (es : List Entry) (e : Entry) :
    guardrails (es ++ [e]) = guardrails es ++ e.guardrail?.toList := by
  unfold guardrails
  rw [List.filterMap_append]
  cases e <;> rfl

end Entry

/-- The same facts: the last record of each principal, the edges whatever their labels, and the
statements of the organization, if it has any policies. -/
structure SameFacts (es es' : List Entry) : Prop where
  principals : ∀ p, lastNamed (Entry.principals es') p = lastNamed (Entry.principals es) p
  edges : ∀ owner action deny pattern conditions,
    (∃ label, .edge owner action deny pattern conditions label ∈ es') ↔
      ∃ label, .edge owner action deny pattern conditions label ∈ es
  guarded : Entry.guardrails es' = [] ↔ Entry.guardrails es = []
  statements : ∀ st, st ∈ (Entry.guardrails es').flatMap Document.statements ↔
    st ∈ (Entry.guardrails es).flatMap Document.statements

/-- Records an entry. -/
def record (g : Graph) : Entry → Except Fault Graph
  | .principal P => g.insertPrincipal P
  | .resource R => g.insertResource R
  | .edge owner action deny pattern conditions label =>
    .ok (g.insertEdge owner action deny ⟨.str pattern, conditions, label⟩)
  | .trust trustor role => .ok (g.insertTrust trustor role)
  | .guardrail d => .ok (g.insertGuardrail d)

/-- The graph that is recorded entry by entry. -/
def ofEntries (es : List Entry) : Except Fault Graph := es.foldlM record empty

end Graph

/-! ## Other policies of the organization -/

namespace Setting

/-- The order of statements that guard does not matter, nor how often they come. -/
theorem passes_congr (x : Setting) {ss ss' : List Statement} (h : ∀ st, st ∈ ss' ↔ st ∈ ss) :
    x.Passes ss' ↔ x.Passes ss := by
  unfold Passes
  simp only [h]

end Setting

namespace Basis

/-- The same basis with other organization policies. -/
def reguarded (b : Basis) (guardrails : List Document) : Basis := { b with guardrails }

variable {b : Basis} {x : Setting} {gs : List Document}
  (h : ∀ p, (b.reguarded gs).Lets x p .organization ↔ b.Lets x p .organization)

include h

theorem lets_reguarded (p : String) (l : Layer) :
    (b.reguarded gs).Lets x p l ↔ b.Lets x p l := by
  cases l with
  | organization => exact h p
  | _ => exact .rfl

theorem clear_reguarded (p : String) : (b.reguarded gs).Clear x p ↔ b.Clear x p :=
  forall₂_congr fun l _ => lets_reguarded h p l

theorem inherits_reguarded (p : String) : (b.reguarded gs).Inherits x p ↔ b.Inherits x p :=
  exists_congr fun q => and_congr .rfl (and_congr (clear_reguarded h q) .rfl)

/-- Other policies that let the same principals through lead to the same decision. -/
theorem Settles.reguarded {p : String} {d : Decision} (hd : b.Settles x p d) :
    (b.reguarded gs).Settles x p d := by
  have hclear := clear_reguarded h p
  have hinherits := inherits_reguarded h p
  cases hd with
  | blocked before l after hg hk hl =>
    refine .blocked before l after hg (fun k hk' => ?_) fun hl' => ?_
    · exact (lets_reguarded h p k).2 (hk k hk')
    · exact hl ((lets_reguarded h p l).1 hl')
  | granted hc ha => exact .granted (hclear.2 hc) ha
  | inherited hc ha hi => exact .inherited (hclear.2 hc) ha (hinherits.2 hi)
  | implicit hc ha hi => exact .implicit (hclear.2 hc) ha fun hi' => hi (hinherits.1 hi')

end Basis

namespace Graph

/-! ## Graphs and their entries -/

/-- A graph knows what its entries say. -/
structure Recorded (es : List Entry) (g : Graph) : Prop where
  textual : g.Textual
  principal : ∀ p : String, g.principal? p = lastNamed (Entry.principals es) p
  guardrails : g.guardrails = Entry.guardrails es
  edges : ∀ (deny : Bool) (owner action pattern : String) (conditions : Json) (label : String),
    g.Holds deny owner action ⟨.str pattern, conditions, label⟩ ↔
      .edge owner action deny pattern conditions label ∈ es

theorem recorded_empty : Recorded [] empty where
  textual := textual_empty []
  principal _ := rfl
  guardrails := rfl
  edges deny owner action pattern conditions label := by
    refine iff_of_false (not_holds_empty [] deny owner action _) List.not_mem_nil

section

variable {es : List Entry} {g : Graph} (h : Recorded es g) {e : Entry}

include h

theorem Recorded.principal_snoc (he : e.principal? = none) (p : String) :
    g.principal? p = lastNamed (Entry.principals (es ++ [e])) p := by
  rw [Entry.principals_snoc, he, Option.toList_none, List.append_nil]
  exact h.principal p

theorem Recorded.guardrails_snoc (he : e.guardrail? = none) :
    g.guardrails = Entry.guardrails (es ++ [e]) := by
  rw [Entry.guardrails_snoc, he, Option.toList_none, List.append_nil]
  exact h.guardrails

theorem Recorded.edges_snoc (he : ∀ owner action deny pattern conditions label,
      e ≠ .edge owner action deny pattern conditions label)
    (deny : Bool) (owner action pattern : String) (conditions : Json) (label : String) :
    g.Holds deny owner action ⟨.str pattern, conditions, label⟩ ↔
      .edge owner action deny pattern conditions label ∈ es ++ [e] := by
  rw [h.edges, List.mem_append, List.mem_singleton]
  exact (or_iff_left (he _ _ _ _ _ _).symm).symm

/-- An entry more. -/
theorem Recorded.record (he : e.Named) :
    ∃ g', g.record e = .ok g' ∧ Recorded (es ++ [e]) g' := by
  cases e with
  | principal P =>
    obtain ⟨⟨a, ha⟩, hgroups⟩ := he
    refine ⟨{ g with principals := g.principals.insert a P }, ?_, ?_⟩
    · simp only [Graph.record, insertPrincipal, ha, Identifier.ofJson_str, ok_bind]
      rfl
    · refine ⟨h.textual.insertPrincipal a ⟨a, ha⟩ hgroups, fun p => ?_, h.guardrails_snoc rfl,
        h.edges_snoc nofun⟩
      rw [Entry.principals_snoc]
      refine (get?_insert_named g.principals (by rw [ha]; rfl) p).trans ?_
      rw [show (Entry.principal P).principal?.toList = [P] from rfl, lastNamed_snoc, ← h.principal]
      rfl
  | resource R =>
    obtain ⟨a, ha⟩ := he
    refine ⟨{ g with resources := g.resources.insert a R }, ?_, ?_⟩
    · simp only [Graph.record, insertResource, ha, Identifier.ofJson_str, ok_bind]
      rfl
    · exact ⟨h.textual.congr rfl rfl rfl, h.principal_snoc rfl, h.guardrails_snoc rfl,
        h.edges_snoc nofun⟩
  | edge owner action deny pattern conditions label =>
    refine ⟨_, rfl, h.textual.insertEdge owner action deny ⟨pattern, rfl⟩, fun p => ?_, ?_, ?_⟩
    · refine Eq.trans ?_ (h.principal_snoc rfl p)
      cases deny <;> rfl
    · refine Eq.trans ?_ (h.guardrails_snoc rfl)
      cases deny <;> rfl
    · intro deny' owner' action' pattern' conditions' label'
      rw [holds_insertEdge, h.edges, List.mem_append, List.mem_singleton, Identifier.text_beq,
        decide_eq_true_eq, Edge.mk.injEq, Json.str.injEq, Entry.edge.injEq]
      refine or_congr .rfl ⟨?_, ?_⟩
      · rintro ⟨rfl, rfl, rfl, rfl, rfl, rfl⟩
        exact ⟨rfl, rfl, rfl, rfl, rfl, rfl⟩
      · rintro ⟨rfl, rfl, rfl, rfl, rfl, rfl⟩
        exact ⟨rfl, rfl, rfl, rfl, rfl, rfl⟩
  | trust trustor role =>
    exact ⟨_, rfl, h.textual.congr rfl rfl rfl, h.principal_snoc rfl, h.guardrails_snoc rfl,
      h.edges_snoc nofun⟩
  | guardrail d =>
    refine ⟨_, rfl, h.textual.congr rfl rfl rfl, h.principal_snoc rfl, ?_, h.edges_snoc nofun⟩
    rw [Entry.guardrails_snoc, ← h.guardrails]
    rfl

end

/-- A run through entries records them all. -/
theorem Recorded.foldlM {done es : List Entry} {g : Graph} (h : Recorded done g)
    (hes : ∀ e ∈ es, e.Named) :
    ∃ g', es.foldlM Graph.record g = .ok g' ∧ Recorded (done ++ es) g' := by
  induction es generalizing done g with
  | nil => exact ⟨g, rfl, by rwa [List.append_nil]⟩
  | cons e rest ih =>
    obtain ⟨g₁, hg₁, h₁⟩ := h.record (hes e List.mem_cons_self)
    obtain ⟨g', hg', h'⟩ := ih h₁ fun e he => hes e (List.mem_cons_of_mem _ he)
    refine ⟨g', ?_, by rwa [List.append_assoc] at h'⟩
    rw [List.foldlM_cons, hg₁]
    exact hg'

theorem recorded_ofEntries {es : List Entry} (hes : ∀ e ∈ es, e.Named) :
    ∃ g, ofEntries es = .ok g ∧ Recorded es g :=
  recorded_empty.foldlM hes

/-! ## The basis of what is recorded -/

/-- Who has an edge that is about a request was given it by an entry, under some label. -/
theorem Recorded.meets_iff {es : List Entry} {g : Graph} (h : Recorded es g) (x : Setting)
    (deny : Bool) (p : String) (Q : Except String Bool → Prop) :
    (∃ a e, g.Holds deny p a e ∧ x.Meets a e ∧ Q (x.answer e.conditions)) ↔
      ∃ a pattern conditions, (∃ label, .edge p a deny pattern conditions label ∈ es) ∧
        actionMatches a x.action = true ∧ resourceMatches pattern x.target = true ∧
        Q (x.answer conditions) := by
  constructor
  · rintro ⟨a, ⟨_, conditions, label⟩, hholds, ⟨ha, pattern, hpattern, hmatches⟩, hQ⟩
    obtain rfl : _ = Json.str pattern := hpattern
    exact ⟨a, pattern, conditions, ⟨label, (h.edges _ _ _ _ _ _).1 hholds⟩, ha, hmatches, hQ⟩
  · rintro ⟨a, pattern, conditions, ⟨label, hmem⟩, ha, hmatches, hQ⟩
    exact ⟨a, _, (h.edges _ _ _ _ _ _).2 hmem, ⟨ha, pattern, rfl, hmatches⟩, hQ⟩

section

variable {es es' : List Entry} {g g' : Graph} (h : Recorded es g) (h' : Recorded es' g')
  (hs : SameFacts es es') (x : Setting)

include h h' hs

/-- The same facts make the same basis, up to the order of what the organization says. -/
theorem Recorded.basis : g'.basis x = (g.basis x).reguarded g'.guardrails := by
  have hprincipal (p : String) : g'.principal? p = g.principal? p := by
    rw [h'.principal, h.principal, hs.principals]
  have hfacts (deny : Bool) (p : String) (Q : Except String Bool → Prop) :
      (∃ a e, g'.Holds deny p a e ∧ x.Meets a e ∧ Q (x.answer e.conditions)) =
        ∃ a e, g.Holds deny p a e ∧ x.Meets a e ∧ Q (x.answer e.conditions) := by
    refine propext ?_
    rw [h'.meets_iff, h.meets_iff]
    simp only [hs.edges]
  unfold Graph.basis Basis.reguarded
  congr 1
  · funext p
    rw [hprincipal]
  · funext p
    unfold groupsOf
    rw [hprincipal]
  · funext p
    exact hfacts false p (· = .ok true)
  · funext p
    exact hfacts true p (· ≠ .ok false)

theorem Recorded.lets_organization (p : String) :
    ((g.basis x).reguarded g'.guardrails).Lets x p .organization ↔
      (g.basis x).Lets x p .organization := by
  show (_ ∨ g'.guardrails = [] ∨ x.Passes (g'.guardrails.flatMap Document.statements)) ↔
    (_ ∨ g.guardrails = [] ∨ x.Passes (g.guardrails.flatMap Document.statements))
  rw [h'.guardrails, h.guardrails]
  exact or_congr .rfl (or_congr hs.guarded (x.passes_congr hs.statements))

end

/-! ## Top theorem -/

/-- **Only facts count.**  What is recorded in two ways with the same facts is recorded without a
fault, and every request is decided alike, by the same layer. -/
theorem decision_of_sameFacts {es es' : List Entry} (hes : ∀ e ∈ es, e.Named)
    (hes' : ∀ e ∈ es', e.Named) (hs : SameFacts es es') :
    ∃ g g', ofEntries es = .ok g ∧ ofEntries es' = .ok g' ∧
      ∀ (x : Setting) (p : String), ∃ d,
        (g.decision x.evaluator x.request (.str p)).outcome = .ok d ∧
          (g'.decision x.evaluator x.request (.str p)).outcome = .ok d := by
  obtain ⟨g, hg, h⟩ := recorded_ofEntries hes
  obtain ⟨g', hg', h'⟩ := recorded_ofEntries hes'
  refine ⟨g, g', hg, hg', fun x p => ?_⟩
  obtain ⟨d, hd, hsettles⟩ := decision_settles h.textual x p
  obtain ⟨d', hd', hsettles'⟩ := decision_settles h'.textual x p
  rw [h.basis h' hs x] at hsettles'
  have hsame := hsettles.reguarded (h.lets_organization h' hs x)
  exact ⟨d, hd, by rw [hd', hsettles'.unique hsame]⟩

/-- A statement about everything. -/
def aboutAll (effect action : String) : Statement := ⟨effect, [action], ["*"], .null, .null, ""⟩

/-- A member of the staff, which may do anything; the organization keeps everybody from writing. -/
def memberEntries : List Entry :=
  [.guardrail ⟨[aboutAll "Allow" "*"], "", ""⟩, .guardrail ⟨[aboutAll "Deny" "write"], "", ""⟩,
    .principal member, .edge "staff" "*" false "*" .null "first"]

/-- The same in another order, with one policy for two, an earlier record of the member, and the
edge twice under other labels. -/
def memberEntries' : List Entry :=
  [.edge "staff" "*" false "*" .null "second", .principal { member with groups := [] },
    .edge "staff" "*" false "*" .null "third", .principal member, .trust "member" "role",
    .guardrail ⟨[aboutAll "Deny" "write", aboutAll "Allow" "*"], "", ""⟩]

theorem memberEntries_sameFacts : SameFacts memberEntries memberEntries' where
  principals p := by
    show lastNamed ([{ member with groups := [] }] ++ [member]) p = lastNamed ([] ++ [member]) p
    rw [lastNamed_snoc, lastNamed_snoc]
    split
    · rfl
    · next h =>
      exact (lastNamed_snoc [] _ p).trans (if_neg h)
  edges owner action deny pattern conditions := by
    simp [memberEntries, memberEntries', exists_or]
  guarded := by decide
  statements st := by
    simp [Entry.guardrails, Entry.guardrail?, memberEntries, memberEntries', or_comm]

/-- The member may read by virtue of its group, whichever way this was recorded. -/
theorem decision_of_sameFacts_memberEntries :
    let x : Setting := ⟨fun _ _ => .ok true, .empty, "read", "file"⟩
    (∀ e ∈ memberEntries, e.Named) ∧ (∀ e ∈ memberEntries', e.Named) ∧
      SameFacts memberEntries memberEntries' ∧
      ∃ g g', ofEntries memberEntries = .ok g ∧ ofEntries memberEntries' = .ok g' ∧
        (g.decision x.evaluator x.request (.str "member")).outcome = .ok ⟨true, some .groups⟩ ∧
        (g'.decision x.evaluator x.request (.str "member")).outcome =
          .ok ⟨true, some .groups⟩ := by
  intro x
  have hmember : (Entry.principal member).Named := ⟨⟨_, rfl⟩, member_groups⟩
  have hno : (Entry.principal { member with groups := [] }).Named :=
    ⟨⟨_, rfl⟩, fun q hq => absurd hq List.not_mem_nil⟩
  have hes : ∀ e ∈ memberEntries, e.Named := by
    simp only [memberEntries, List.forall_mem_cons]
    exact ⟨trivial, trivial, hmember, trivial, fun e he => absurd he List.not_mem_nil⟩
  have hes' : ∀ e ∈ memberEntries', e.Named := by
    simp only [memberEntries', List.forall_mem_cons]
    exact ⟨trivial, hno, trivial, hmember, trivial, trivial,
      fun e he => absurd he List.not_mem_nil⟩
  obtain ⟨g, g', hg, hg', hsame⟩ := decision_of_sameFacts hes hes' memberEntries_sameFacts
  obtain ⟨d, hd, hd'⟩ := hsame x "member"
  have hrun : (ofEntries memberEntries).map (fun g =>
      (g.decision (fun _ _ => .ok true) ⟨"read", .str "file", .empty⟩ (.str "member")).outcome) =
        .ok (.ok ⟨true, some .groups⟩) := by rfl
  rw [hg] at hrun
  obtain rfl : d = ⟨true, some .groups⟩ := Except.ok.inj (hd.symm.trans (Except.ok.inj hrun))
  exact ⟨hes, hes', memberEntries_sameFacts, g, g', hg, hg', hd, hd'⟩

end Graph
end CloudAccess
