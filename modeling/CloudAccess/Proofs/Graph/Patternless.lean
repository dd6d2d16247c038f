import CloudAccess.Proofs.Graph.Appended

/-!
# Statements without a resource pattern

The patterns of a statement are the texts in its resource field.  A field of another shape, be it a
number, an object or a list without a text, leaves the statement without patterns, as if the field
were not there (`Statement.ofJson_without_resource`).

* In the policy of a principal such a statement says nothing.
* In the policy of a resource it is about that resource: it adds an edge on it for each of its
  owners and actions.

A resource field that cannot be read thus grants and denies what a missing one does
(`edges_of_patternless`).
-/

namespace CloudAccess

/-! ## Records -/

/-- A resource field without a text is read as if it were not there. -/
theorem Statement.ofJson_without_resource {ms : Json.Members}
    (h : (Json.member "Resource" ms).texts = []) :
    ofJson (.obj (Json.without "Resource" ms)) = ofJson (.obj ms) := by
  have h' : (Json.member "Resource" (Json.without "Resource" ms)).texts = [] := by
    rw [Json.member_without_self]
    rfl
  simp (disch := decide) only [ofJson, h, h', Json.member_without_of_ne,
    Json.member?_without_of_ne]

theorem Statement.resources_of_ofJson {ms : Json.Members} {s : Statement}
    (hs : ofJson (.obj ms) = .ok s) : s.resources = (Json.member "Resource" ms).texts := by
  obtain rfl := Except.ok.inj hs
  rfl

/-! ## Policies -/

/-- Without patterns there is nothing to confine, and the resource stands for itself. -/
theorem confineTo_nil (resource : Json) : confineTo resource [] = pure [resource] := by
  cases resource <;> rfl

namespace Graph

theorem addStatement_nil (g : Graph) (owner : Identifier) (s : Statement) :
    g.addStatement owner s [] = g := by
  unfold addStatement
  simp

theorem addIdentityPolicy_patternless (g : Graph) (owner : Identifier) {s : Statement}
    (h : s.resources = []) (version id : String) :
    g.addIdentityPolicy owner ⟨[s], version, id⟩ = (g, 0) := by
  simp [addIdentityPolicy, h, addStatement_nil, edgeCount]

theorem addResourcePolicy_patternless (g : Graph) (resource : Json) {s : Statement}
    (h : s.resources = []) (version id : String) :
    (g.addResourcePolicy resource ⟨[s], version, id⟩).1 =
        (g.ensureEveryone s).1.grant s [resource] ∧
      (g.addResourcePolicy resource ⟨[s], version, id⟩).2.outcome =
        .ok ((ownersOf s).length * s.actions.length) := by
  unfold addResourcePolicy addResourceStatements
  rw [h, confineTo_nil]
  refine ⟨rfl, ?_⟩
  show Except.ok ((ownersOf s).length * (s.actions.length * 1) + 0) = _
  rw [Nat.add_zero, Nat.mul_one]

/-! ## Top theorem -/

/-- **A resource field that cannot be read is one that is missing.**  In the policy of a principal
the statement adds nothing.  In the policy of a resource it adds an edge on the resource for each
owner and action, as it does without the field. -/
theorem edges_of_patternless {ms : Json.Members} {s : Statement}
    (hs : Statement.ofJson (.obj ms) = .ok s) (hnone : (Json.member "Resource" ms).texts = [])
    (g : Graph) (version id : String) :
    (∀ owner, g.addIdentityPolicy owner ⟨[s], version, id⟩ = (g, 0)) ∧
    (∀ resource : Json,
      (g.addResourcePolicy resource ⟨[s], version, id⟩).2.outcome =
        .ok ((ownersOf s).length * s.actions.length) ∧
      ∀ deny o a e, (g.addResourcePolicy resource ⟨[s], version, id⟩).1.Holds deny o a e ↔
        g.Holds deny o a e ∨
          ((∃ grantee ∈ s.grantees, (Identifier.text (publicName grantee) == o) = true) ∧
            deny = s.isDeny ∧ a ∈ s.actions ∧ e = edgeOf s resource)) ∧
    Statement.ofJson (.obj (Json.without "Resource" ms)) = .ok s := by
  have hresources : s.resources = [] := by rw [Statement.resources_of_ofJson hs, hnone]
  refine ⟨fun owner => g.addIdentityPolicy_patternless owner hresources version id,
    fun resource => ?_, by rw [Statement.ofJson_without_resource hnone, hs]⟩
  obtain ⟨hgraph, hcount⟩ := g.addResourcePolicy_patternless resource hresources version id
  refine ⟨hcount, fun deny o a e => ?_⟩
  rw [hgraph, holds_grant, holds_ensureEveryone]
  simp only [Statement.Makes, List.mem_singleton, exists_eq_left]

/-- What a statement for everyone says with a number for a resource. -/
def numbered (effect : String) : Json.Members :=
  [("Effect", .str effect), ("Principal", .str "*"), ("Action", .str "read"),
    ("Resource", .int 5)]

/-- In the policy of a file, a denial to everyone with a number for a resource is one edge on the
file. -/
theorem edges_of_patternless_numbered :
    let denial : Statement := ⟨"Deny", ["read"], [], .str "*", .null, ""⟩
    let after := empty.addResourcePolicy (.str "file") ⟨[denial], "", ""⟩
    Statement.ofJson (.obj (numbered "Deny")) = .ok denial ∧
      (Json.member "Resource" (numbered "Deny")).texts = [] ∧
      empty.addIdentityPolicy (.text "member") ⟨[denial], "", ""⟩ = (empty, 0) ∧
      after.2.outcome = .ok 1 ∧
      after.1.Holds true (.text "*") "read" (edgeOf denial (.str "file")) := by
  intro denial after
  have hs : Statement.ofJson (.obj (numbered "Deny")) = .ok denial := by rfl
  have hnone : (Json.member "Resource" (numbered "Deny")).texts = [] := by rfl
  obtain ⟨hidentity, hresource, -⟩ := edges_of_patternless hs hnone empty "" ""
  obtain ⟨hcount, hedges⟩ := hresource (.str "file")
  refine ⟨hs, hnone, hidentity _, hcount, (hedges _ _ _ _).2 (.inr ⟨⟨"*", ?_, ?_⟩, rfl, ?_, rfl⟩)⟩
  · decide
  · decide
  · decide

/-- In the policy of a file, a grant to everyone with a number for a resource grants the file. -/
theorem granted_without_pattern :
    ∃ grant after, Statement.ofJson (.obj (numbered "Allow")) = .ok grant ∧
      empty.addIdentityPolicy (.text "*") ⟨[grant], "", ""⟩ = (empty, 0) ∧
      empty.addResourcePolicy (.str "file") ⟨[grant], "", ""⟩ = (after, ⟨.ok 1, [.everyoneAdded]⟩) ∧
      (after.permits Condition.standard ⟨"read", .str "file", .empty⟩ (.str "*")).outcome =
        .ok true :=
  ⟨_, _, rfl, rfl, rfl, rfl⟩

end Graph
end CloudAccess
