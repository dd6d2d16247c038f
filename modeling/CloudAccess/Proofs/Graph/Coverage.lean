import CloudAccess.Proofs.Graph.Confinement

/-!
# What confinement keeps

`confine` narrows the patterns in the policy of a resource to the resource and what lies under it.
`Retains` tells, pattern by pattern, what is left of them there:

    (∃ q ∈ confine r ps, resourceMatches q t = true) ↔ ∃ p ∈ ps, Retains r p t
                                                                          (covered_confined_iff)

A pattern that covers the resource itself loses nothing.  One that covers only some of what lies
under it is tried on two names, that of the resource and `r/*`; where it covers neither and does
not go on from the name of the resource, it is dropped with all that it covers there
(`denial_dropped`).
-/

namespace CloudAccess

/-! ## Definitions -/

/-- What a pattern comes to covers a name at or under the resource.  A pattern that goes on from
the name of the resource stays as it is; any other one comes to cover all there is if it covers the
resource, and all that lies under it if it covers the name `r/*`. -/
def Retains (resource pattern t : String) : Prop :=
  (AtOrUnder resource pattern ∧ resourceMatches pattern t = true) ∨
    (¬ AtOrUnder resource pattern ∧ (resourceMatches pattern resource = true ∨
      (resourceMatches pattern (beneath resource) = true ∧ t ≠ resource)))

variable {resource pattern t : String} {patterns : List String}

/-! ## Names and the patterns made of them -/

theorem atOrUnder_iff : AtOrUnder resource pattern ↔
    (decide (pattern = resource) || (resource ++ "/").toList.isPrefixOf pattern.toList) = true := by
  unfold AtOrUnder
  rw [Bool.or_eq_true, decide_eq_true_eq, List.isPrefixOf_iff_prefix]

theorem not_under_self : ¬ (resource ++ "/").toList <+: resource.toList := by
  intro h
  have hlength := h.length_le
  simp at hlength

/-- The name of a resource covers that resource alone. -/
theorem resourceMatches_resource_iff (hr : resource.toList.all Glob.plain = true) :
    resourceMatches resource t = true ↔ t = resource := by
  have hstar : resource ≠ "*" := by
    rintro rfl
    cases hr
  unfold resourceMatches
  simp only [Bool.or_eq_true, decide_eq_true_eq, hstar, or_false, Glob.fits_plain hr]
  exact ⟨fun h => h.elim Eq.symm id, .inr⟩

/-- The pattern for all that lies under a resource covers just that. -/
theorem resourceMatches_beneath_iff (hr : resource.toList.all Glob.plain = true) :
    resourceMatches (beneath resource) t = true ↔ (resource ++ "/").toList <+: t.toList := by
  have hslash : (resource ++ "/").toList.all Glob.plain = true := by
    rw [String.toList_append, List.all_append, hr]
    rfl
  have hsplit : beneath resource = (resource ++ "/") ++ "*" := by
    rw [String.append_assoc]
    rfl
  have hstar : beneath resource ≠ "*" := by
    intro h
    have hlength := congrArg (fun s : String => s.toList.length) h
    simp [beneath] at hlength
  have hfits : Glob.fits (beneath resource) t = true ↔ (resource ++ "/").toList <+: t.toList := by
    rw [hsplit, Glob.fits_append hslash]
    constructor
    · rintro ⟨rest, hrest, -⟩
      exact ⟨rest, hrest.symm⟩
    · rintro ⟨rest, hrest⟩
      exact ⟨rest, hrest.symm, Glob.accepts_star rest⟩
  unfold resourceMatches
  simp only [Bool.or_eq_true, decide_eq_true_eq, hstar, or_false, hfits]
  refine or_iff_right_of_imp ?_
  rintro rfl
  rw [hsplit, String.toList_append (s := resource ++ "/")]
  exact List.prefix_append _ _

/-! ## One pattern -/

theorem confined_of_atOrUnder (h : AtOrUnder resource pattern) :
    confined resource pattern = [pattern] := if_pos (atOrUnder_iff.1 h)

theorem confined_of_not_atOrUnder (h : ¬ AtOrUnder resource pattern) :
    confined resource pattern =
      if resourceMatches pattern resource then [resource, beneath resource]
      else if resourceMatches pattern (beneath resource) then [beneath resource]
      else [] := if_neg (mt atOrUnder_iff.2 h)

/-- What one pattern comes to covers a name as told. -/
theorem confined_retains (hr : resource.toList.all Glob.plain = true) (ht : AtOrUnder resource t)
    (pattern : String) : (∃ q ∈ confined resource pattern, resourceMatches q t = true) ↔
      Retains resource pattern t := by
  have hunder : resourceMatches (beneath resource) t = true ↔ t ≠ resource := by
    rw [resourceMatches_beneath_iff hr]
    refine ⟨?_, ht.resolve_left⟩
    rintro h rfl
    exact not_under_self h
  unfold Retains
  by_cases hp : AtOrUnder resource pattern
  · rw [confined_of_atOrUnder hp]
    simp [hp]
  rw [confined_of_not_atOrUnder hp]
  by_cases hcovers : resourceMatches pattern resource = true
  · simp [hp, hcovers, resourceMatches_resource_iff hr, hunder, em]
  by_cases hbeneath : resourceMatches pattern (beneath resource) = true
  · simp [hp, hcovers, hbeneath, hunder]
  · simp [hp, hcovers, hbeneath]

/-- A pattern is dropped when it covers neither of the two names that it is tried on. -/
theorem mem_droppedPatterns : pattern ∈ droppedPatterns resource patterns ↔
    pattern ∈ patterns ∧ ¬ AtOrUnder resource pattern ∧
      resourceMatches pattern resource = false ∧
        resourceMatches pattern (beneath resource) = false := by
  unfold droppedPatterns
  rw [List.mem_filter, List.isEmpty_iff]
  refine and_congr .rfl ?_
  by_cases hp : AtOrUnder resource pattern
  · simp [confined_of_atOrUnder hp, hp]
  · rw [confined_of_not_atOrUnder hp]
    cases resourceMatches pattern resource <;>
      cases resourceMatches pattern (beneath resource) <;> simp [hp]

/-- What a pattern covers at or under the resource it retains, unless it is dropped. -/
theorem retains_of_not_dropped (hp : pattern ∈ patterns)
    (hkept : pattern ∉ droppedPatterns resource patterns)
    (ht : resourceMatches pattern t = true) : Retains resource pattern t := by
  by_cases hlead : AtOrUnder resource pattern
  · exact .inl ⟨hlead, ht⟩
  refine .inr ⟨hlead, ?_⟩
  by_cases hcovers : resourceMatches pattern resource = true
  · exact .inl hcovers
  refine .inr ⟨?_, ?_⟩
  · by_contra hbeneath
    exact hkept (mem_droppedPatterns.2
      ⟨hp, hlead, Bool.eq_false_iff.2 hcovers, Bool.eq_false_iff.2 hbeneath⟩)
  · rintro rfl
    exact hcovers ht

/-! ## Top theorem -/

/-- **What confinement keeps of patterns.**  The confined patterns cover a name at or under the
resource exactly if one of the patterns retains it.  So what a pattern covers there stays covered
unless the pattern is dropped, and the resource itself always does. -/
theorem covered_confined_iff (hr : resource.toList.all Glob.plain = true) (hne : patterns ≠ [])
    (ht : AtOrUnder resource t) :
    ((∃ q ∈ confine resource patterns, resourceMatches q t = true) ↔
      ∃ p ∈ patterns, Retains resource p t) ∧
    (∀ p ∈ patterns, resourceMatches p t = true →
      (t = resource ∨ p ∉ droppedPatterns resource patterns) →
      ∃ q ∈ confine resource patterns, resourceMatches q t = true) := by
  have hcovered : (∃ q ∈ confine resource patterns, resourceMatches q t = true) ↔
      ∃ p ∈ patterns, Retains resource p t := by
    unfold confine
    rw [if_neg (by simpa using hne)]
    simp only [List.mem_eraseDups, List.mem_flatMap, ← confined_retains hr ht]
    constructor
    · rintro ⟨q, ⟨p, hp, hq⟩, hm⟩
      exact ⟨p, hp, q, hq, hm⟩
    · rintro ⟨p, hp, q, hq, hm⟩
      exact ⟨q, ⟨p, hp, hq⟩, hm⟩
  refine ⟨hcovered, fun p hp hm hkept => hcovered.2 ⟨p, hp, ?_⟩⟩
  refine retains_of_not_dropped hp ?_ hm
  rcases hkept with rfl | hkept
  · intro hdropped
    rw [(mem_droppedPatterns.1 hdropped).2.2.1] at hm
    cases hm
  · exact hkept

/-- What is said of the contents of all buckets holds of a file in the bucket that says it. -/
theorem covered_confined_bucket :
    let bucket := "arn:aws:s3:::bucket"
    let file := "arn:aws:s3:::bucket/file"
    let patterns := ["arn:aws:s3:::*/*"]
    bucket.toList.all Glob.plain = true ∧ patterns ≠ [] ∧ AtOrUnder bucket file ∧
      ∃ q ∈ confine bucket patterns, resourceMatches q file = true := by
  intro bucket file patterns
  have hr : bucket.toList.all Glob.plain = true := by decide
  have ht : AtOrUnder bucket file := .inr (List.isPrefixOf_iff_prefix.1 (by decide))
  have hne : patterns ≠ [] := List.cons_ne_nil _ _
  exact ⟨hr, hne, ht, (covered_confined_iff hr hne ht).2 "arn:aws:s3:::*/*" List.mem_cons_self
    (by decide) (.inr (by decide))⟩

namespace Graph

/-- A bucket that denies a member all that is private, and the member, which may do anything. -/
def privateFiles (pattern : String) : Snapshot where
  principals :=
    [{ member with policies := [⟨[⟨"Allow", ["*"], ["*"], .null, .null, ""⟩], "", ""⟩] }]
  resources := [⟨.str "arn:aws:s3:::bucket", .s3, "", "", "", some
    ⟨[⟨"Deny", ["*"], [pattern], .str "member", .null, ""⟩], "", ""⟩⟩]
  guardrails := []
  attachments := []
  hierarchy := none
  collectedAt := ""
  account := ""
  regions := []

/-- A pattern for what is private in any bucket covers a file of the bucket in whose policy it
stands, but nothing is left of it there, and the denial does not reach the member. -/
theorem denial_dropped :
    let bucket := "arn:aws:s3:::bucket"
    let file := "arn:aws:s3:::bucket/private/file"
    let pattern := "arn:aws:s3:::*/private/*"
    bucket.toList.all Glob.plain = true ∧ (bucket ++ "/").toList <+: file.toList ∧
      resourceMatches pattern file = true ∧
      (¬ ∃ q ∈ confine bucket [pattern], resourceMatches q file = true) ∧
      ∃ g, (ofSnapshot (privateFiles pattern)).outcome = .ok g ∧
        (g.permits Condition.standard ⟨"read", .str file, .empty⟩ (.str "member")).outcome =
          .ok true := by
  intro bucket file pattern
  have hnone : confine bucket [pattern] = [] := by decide
  have hdropped : ¬ ∃ q ∈ confine bucket [pattern], resourceMatches q file = true := by
    rw [hnone]
    simp
  have hrun : (ofSnapshot (privateFiles "arn:aws:s3:::*/private/*")).outcome.map (fun g =>
      (g.permits Condition.standard ⟨"read", .str "arn:aws:s3:::bucket/private/file", .empty⟩
        (.str "member")).outcome) = .ok (.ok true) := by rfl
  obtain ⟨g, hg, hpermits⟩ := map_eq_ok hrun
  exact ⟨by decide, List.isPrefixOf_iff_prefix.1 (by decide), by decide, hdropped, g, hg, hpermits⟩

end Graph
end CloudAccess
