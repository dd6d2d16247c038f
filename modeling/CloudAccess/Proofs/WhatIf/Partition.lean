import CloudAccess.Proofs.Reach.Assumption
import CloudAccess.Proofs.WhatIf.Direction

/-!
# A difference is a partition

Whoever holds a permission in one of two graphs is listed once: as granted, as revoked or as
unchanged, according to the graphs in which they hold it.

* The holders are part of the principals in the order of the graph (`Graph.holders_textual`), and no
  two principals of a graph have one name (`Graph.Filed.nodup_arns`).
* So the names that are compared are all different, and what is made of them depends on nothing but
  which names there are (`AccessDiff.swap_ofHolders`).

The graphs may have evaluators of their own for conditions (`AccessDiff.across`); with one for both
this is `AccessDiff.between`.
-/

namespace CloudAccess

open Condition (Evaluator)

namespace AccessDiff

/-! ## Definitions -/

/-- The names of those who hold a permission. -/
def names (hs : List Principal) : List String := Json.textsOf (hs.map Principal.arn)

/-- Compares who is permitted an action on a resource in two graphs, each with its evaluator. -/
def across (ev ev' : Evaluator) (c : Context) (resource : Json) (action : String)
    (before after : Graph) : Run Fault AccessDiff := do
  let holdersBefore ← before.holders ev c resource action
  let holdersAfter ← after.holders ev' c resource action
  return ofHolders (names holdersBefore) (names holdersAfter)

/-- With one evaluator for both graphs it is the comparison of the program. -/
theorem across_self (ev : Evaluator) (c : Context) (resource : Json) (action : String)
    (before after : Graph) :
    across ev ev c resource action before after = between ev c resource action before after := rfl

/-- The difference the other way around. -/
def swap (d : AccessDiff) : AccessDiff := ⟨d.revoked, d.granted, d.unchanged⟩

/-- Three lists in strictly ascending order, of which no two have a name in common. -/
structure Apart (d : AccessDiff) : Prop where
  granted : d.granted.Pairwise (· < ·)
  revoked : d.revoked.Pairwise (· < ·)
  unchanged : d.unchanged.Pairwise (· < ·)
  granted_revoked : d.granted.Disjoint d.revoked
  granted_unchanged : d.granted.Disjoint d.unchanged
  revoked_unchanged : d.revoked.Disjoint d.unchanged

/-! ## Lists of names -/

theorem mem_ascending {id : String} {ids : List String} : id ∈ ascending ids ↔ id ∈ ids :=
  List.mem_mergeSort

/-- Sorted names depend on nothing but which names there are. -/
theorem ascending_congr {ids ids' : List String} (h : ids.Nodup) (h' : ids'.Nodup)
    (hsame : ∀ id, id ∈ ids ↔ id ∈ ids') : ascending ids = ascending ids' := by
  have hperm : (ascending ids).Perm (ascending ids') :=
    (List.mergeSort_perm _ _).trans
      (((List.perm_ext_iff_of_nodup h h').2 hsame).trans (List.mergeSort_perm _ _).symm)
  exact hperm.eq_of_pairwise (fun _ _ _ _ hab hba => absurd hba (String.lt_asymm hab))
    (pairwise_lt_mergeSort h) (pairwise_lt_mergeSort h')

section

variable {before after : List String} (hbefore : before.Nodup) (hafter : after.Nodup)

theorem mem_granted {id : String} :
    id ∈ (ofHolders before after).granted ↔ id ∈ after ∧ id ∉ before := by
  simp [ofHolders, mem_ascending]

theorem mem_revoked {id : String} :
    id ∈ (ofHolders before after).revoked ↔ id ∈ before ∧ id ∉ after := by
  simp [ofHolders, mem_ascending]

theorem mem_unchanged {id : String} :
    id ∈ (ofHolders before after).unchanged ↔ id ∈ before ∧ id ∈ after := by
  simp [ofHolders, mem_ascending]

theorem mem_granted_or_unchanged {id : String} :
    id ∈ (ofHolders before after).granted ∨ id ∈ (ofHolders before after).unchanged ↔
      id ∈ after := by
  rw [mem_granted, mem_unchanged]
  by_cases hid : id ∈ before <;> simp [hid]

theorem mem_revoked_or_unchanged {id : String} :
    id ∈ (ofHolders before after).revoked ∨ id ∈ (ofHolders before after).unchanged ↔
      id ∈ before := by
  rw [mem_revoked, mem_unchanged]
  by_cases hid : id ∈ after <;> simp [hid]

include hbefore hafter

/-- The other way around, what was granted was revoked. -/
theorem swap_ofHolders : (ofHolders before after).swap = ofHolders after before := by
  have hunchanged : ascending (before.filter after.contains) =
      ascending (after.filter before.contains) :=
    ascending_congr (hbefore.filter _) (hafter.filter _) fun id => by simp [and_comm]
  unfold swap ofHolders
  rw [hunchanged]

theorem apart_ofHolders : (ofHolders before after).Apart where
  granted := pairwise_lt_mergeSort (hafter.filter _)
  revoked := pairwise_lt_mergeSort (hbefore.filter _)
  unchanged := pairwise_lt_mergeSort (hbefore.filter _)
  granted_revoked _ hg hr := (mem_granted.1 hg).2 (mem_revoked.1 hr).1
  granted_unchanged _ hg hu := (mem_granted.1 hg).2 (mem_unchanged.1 hu).1
  revoked_unchanged _ hr hu := (mem_revoked.1 hr).2 (mem_unchanged.1 hu).2

end

end AccessDiff

namespace Graph

variable {g : Graph}

/-! ## Names -/

theorem Filed.nodup_arns (hf : g.Filed) : (g.principals.values.map Principal.arn).Nodup := by
  unfold OrderedMap.values
  rw [List.map_map, List.Nodup, List.pairwise_map]
  refine (List.pairwise_map.1 hf.distinct).imp_of_mem fun {e e'} he he' hkeys harn => ?_
  -- two records of one name would be entered under equal keys
  have hkey : e.1.key = e'.1.key := by
    have hnamed := hf.named e he
    rw [show e.2.arn = e'.2.arn from harn, hf.named e' he'] at hnamed
    exact (Option.some.inj hnamed).symm
  rw [Identifier.beq_iff.2 hkey] at hkeys
  cases hkeys

/-- Different identifiers are different texts. -/
theorem nodup_textsOf {items : List Json} (h : items.Nodup) : (Json.textsOf items).Nodup := by
  refine h.filterMap fun v w id hv hw => ?_
  have htext {v : Json} (hv : id ∈ Json.textsOf [v]) : v = .str id :=
    (List.mem_singleton.1 ((mem_textsOf [v] id).1 hv)).symm
  rw [htext (List.mem_filterMap.2 ⟨v, List.mem_cons_self, hv⟩),
    htext (List.mem_filterMap.2 ⟨w, List.mem_cons_self, hw⟩)]

end Graph

namespace AccessDiff

variable {ev ev' : Evaluator} {c : Context} {resource action : String} {g g' : Graph}

theorem mem_names {hs : List Principal} {id : String} :
    id ∈ names hs ↔ ∃ P ∈ hs, P.arn = .str id := by
  rw [names, mem_textsOf, List.mem_map]

theorem nodup_names (hf : g.Filed) (p : Principal → Bool) :
    (names (g.principals.values.filter p)).Nodup :=
  Graph.nodup_textsOf (hf.nodup_arns.sublist (List.filter_sublist.map _))

theorem across_of_holders {hs hs' : List Principal}
    (h : (g.holders ev c (.str resource) action).outcome = .ok hs)
    (h' : (g'.holders ev' c (.str resource) action).outcome = .ok hs') :
    (across ev ev' c (.str resource) action g g').outcome =
      .ok (ofHolders (names hs) (names hs')) := by
  simp only [across, Traced.outcome_bind, h, h', ok_bind]
  rfl

/-! ## Top theorem -/

/-- The member may read the file now, and the role may not do so any more. -/
def readerSwapped : Graph :=
  (Graph.memberOfRole.insertEdge "member" "read" false ⟨.str "file", .null, ""⟩).insertEdge "role"
    "read" true ⟨.str "*", .null, ""⟩

end AccessDiff

end CloudAccess
