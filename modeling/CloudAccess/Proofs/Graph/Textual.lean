import CloudAccess.Proofs.Graph.Edges

/-!
# Graphs whose identifiers are texts

Principals, their groups and the resource patterns of edges are named by texts in any sound
snapshot.  `Graph.Textual` says so of a graph; what is recorded under texts keeps it.
-/

namespace CloudAccess.Graph

/-- The identifiers in a graph are texts. -/
structure Textual (g : Graph) : Prop where
  arns : ∀ p ∈ g.principals.values, ∃ a, p.arn = .str a
  groups : ∀ p ∈ g.principals.values, ∀ q ∈ p.groups, ∃ a, q = .str a
  patterns : ∀ deny owner a e, g.Holds deny owner a e → ∃ q, e.pattern = .str q

theorem textual_empty (guardrails : List Document) :
    ({ empty with guardrails } : Graph).Textual where
  arns _ hp := absurd hp List.not_mem_nil
  groups _ hp := absurd hp List.not_mem_nil
  patterns deny owner a e h := absurd h (not_holds_empty guardrails deny owner a e)

/-- What else a graph records does not matter. -/
theorem Textual.congr {g g' : Graph} (hg : g.Textual) (hp : g'.principals = g.principals)
    (ha : g'.allows = g.allows) (hd : g'.denies = g.denies) : g'.Textual where
  arns p h := hg.arns p (hp ▸ h)
  groups p h := hg.groups p (hp ▸ h)
  patterns deny owner a e h := by
    refine hg.patterns deny owner a e ?_
    unfold Holds index at h ⊢
    rwa [ha, hd] at h

theorem Textual.insertEdge {g : Graph} (hg : g.Textual) (owner : Identifier) (action : String)
    (deny : Bool) {e : Edge} (he : ∃ q, e.pattern = .str q) :
    (g.insertEdge owner action deny e).Textual where
  arns p hp := hg.arns p (by cases deny <;> exact hp)
  groups p hp := hg.groups p (by cases deny <;> exact hp)
  patterns d o a f h := by
    rcases (holds_insertEdge _ _ _ _ _ _ _ _ _).1 h with h | ⟨-, -, -, rfl⟩
    · exact hg.patterns d o a f h
    · exact he

theorem Textual.insertPrincipal {g : Graph} (hg : g.Textual) (id : Identifier) {p : Principal}
    (ha : ∃ a, p.arn = .str a) (hq : ∀ q ∈ p.groups, ∃ a, q = .str a) :
    ({ g with principals := g.principals.insert id p } : Graph).Textual where
  arns q h := by
    rcases OrderedMap.mem_values_insert h with rfl | h
    · exact ha
    · exact hg.arns q h
  groups q h := by
    rcases OrderedMap.mem_values_insert h with rfl | h
    · exact hq
    · exact hg.groups q h
  patterns := hg.patterns

end CloudAccess.Graph
