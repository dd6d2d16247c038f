import CloudAccess.Proofs.Graph.Escapes
import CloudAccess.Proofs.Graph.Hierarchy

/-!
# The more units are known, the more policies govern

Whether an attachment governs an account is decided by its targets, one of which has to cover the
account (`Attachment.governors`).  A target that is a unit covers it if the unit is known to contain
the account, or if nothing is known of the units at all.  So the attachments that govern an account

* are always those of the root and of the account itself;
* with units of the account besides, those of these units;
* without a hierarchy, those of all units.

Each of these is part of the next one, in the order of the attachments (`governing_of_within`).
Policies can be picked from them unless a unit identifies nothing (`Attachment.Stumbles`), and it
takes more units to stumble less.
-/

namespace CloudAccess

/-! ## Definitions -/

/-- A target covers the account whatever its units are. -/
def Target.certain (account : Json) (t : Target) : Bool :=
  match t.kind with
  | .root => true
  | .account => t.id.equals account
  | .unit => false

/-- The attachments that govern an account, in their order. -/
def Attachment.governors (account : Json) (hierarchy : Option Hierarchy)
    (as : List Attachment) : List Attachment :=
  as.filter fun a => a.targets.any (Target.governs account hierarchy)

/-- The units of one hierarchy are among those of another one. -/
def Hierarchy.Within (h h' : Hierarchy) : Prop :=
  ∃ keys keys', h.keys = .ok keys ∧ h'.keys = .ok keys' ∧ keys ⊆ keys'

namespace Hierarchy

theorem keys_texts (account : Json) (units : List String) :
    (Hierarchy.mk account (units.map .str)).keys = .ok (units.map .str) := by
  unfold keys
  induction units with
  | nil => rfl
  | cons u rest ih =>
    rw [List.map_cons, List.mapM_cons, ih]
    rfl

theorem within_texts (account account' : Json) (units units' : List String) :
    Within ⟨account, units.map .str⟩ ⟨account', units'.map .str⟩ ↔ units ⊆ units' := by
  have hinj : Function.Injective Json.Key.str := fun _ _ => Json.Key.str.inj
  unfold Within
  simp only [keys_texts, Except.ok.injEq, exists_and_left, exists_eq_left']
  exact List.map_subset_iff Json.Key.str hinj

end Hierarchy

/-! ## Targets and attachments -/

section

variable {account : Json} {h h' : Hierarchy}

theorem Target.governs_of_certain {t : Target} (ht : t.certain account = true)
    (hierarchy : Option Hierarchy) : t.governs account hierarchy = true := by
  obtain ⟨kind, id, arn, name⟩ := t
  cases kind with
  | root => cases hierarchy <;> rfl
  | account => cases hierarchy <;> exact ht
  | unit => cases ht

theorem Target.governs_of_within (hsub : h.Within h') {t : Target}
    (ht : t.governs account (some h) = true) : t.governs account (some h') = true := by
  obtain ⟨keys, keys', hkeys, hkeys', hsub⟩ := hsub
  obtain ⟨kind, id, arn, name⟩ := t
  cases kind with
  | root => rfl
  | account => exact ht
  | unit =>
    simp only [governs, List.any_eq_true, decide_eq_true_eq] at ht ⊢
    obtain ⟨u, hu, hid⟩ := ht
    rw [← hid]
    cases hk : u.key? with
    | none =>
      obtain ⟨f, hf⟩ := (Hierarchy.keys_error h).2 ⟨u, hu, hk⟩
      cases hkeys.symm.trans hf
    | some k => exact (mem_keys hkeys' k).1 (hsub ((mem_keys hkeys k).2 ⟨u, hu, hk⟩))

namespace Attachment

theorem sublist_governors {p : Target → Bool} {hierarchy : Option Hierarchy}
    (hp : ∀ t, p t = true → t.governs account hierarchy = true) (as : List Attachment) :
    (as.filter fun a => a.targets.any p).Sublist (governors account hierarchy as) :=
  List.monotone_filter_right as fun a ha => by
    obtain ⟨t, ht, hpt⟩ := List.any_eq_true.1 ha
    exact List.any_eq_true.2 ⟨t, ht, hp t hpt⟩

/-- What stumbles with more units does so with less. -/
theorem Stumbles.of_within (hsub : h.Within h') {a : Attachment}
    (ha : a.Stumbles account (some h')) : a.Stumbles account (some h) := by
  obtain ⟨before, t, after, hsplit, hunit, hkey, hbefore⟩ := ha
  refine ⟨before, t, after, hsplit, hunit, hkey, fun t' ht' => ?_⟩
  -- what covered the account before `t` with less units would do so with more
  exact Bool.eq_false_iff.2 fun hgoverns =>
    Bool.eq_false_iff.1 (hbefore t' ht') (Target.governs_of_within hsub hgoverns)

/-! ## Policies that are picked -/

theorem governing_some {keys : List Json.Key} (hkeys : h.keys = .ok keys) (as : List Attachment) :
    governing account as (some h) = governingFrom account (some keys) as := by
  rw [governing, hkeys]
  rfl

/-- The policies are those of the attachments that govern the account, unless one stumbles. -/
theorem governing_eq_ok_iff {keys : List Json.Key} (hkeys : h.keys = .ok keys)
    (as : List Attachment) (ds : List Document) :
    (governing account as (some h)).outcome = .ok ds ↔
      ds = (governors account (some h) as).map policy ∧
        ∀ a ∈ as, ¬ a.Stumbles account (some h) := by
  have hunits : UnitsOf (some h) (some keys) := ⟨keys, hkeys, rfl⟩
  have herror : (∃ f, (governingFrom account (some keys) as).outcome = .error f) ↔
      ∃ a ∈ as, a.Stumbles account (some h) := governingFrom_error hkeys as
  rw [governing_some hkeys]
  constructor
  · intro hds
    refine ⟨governingFrom_outcome hunits as hds, fun a ha hstumbles => ?_⟩
    obtain ⟨f, hf⟩ := herror.2 ⟨a, ha, hstumbles⟩
    cases hds.symm.trans hf
  · rintro ⟨rfl, hnone⟩
    cases hds : (governingFrom account (some keys) as).outcome with
    | ok ds => rw [governingFrom_outcome hunits as hds]; rfl
    | error f =>
      obtain ⟨a, ha, hstumbles⟩ := herror.1 ⟨f, hds⟩
      exact absurd hstumbles (hnone a ha)

/-- While nothing is known of the units nothing stumbles. -/
theorem governing_none (account : Json) (as : List Attachment) :
    (governing account as none).outcome = .ok ((governors account none as).map policy) := by
  have hunits : UnitsOf none none := rfl
  rw [governing]
  cases hds : (governingFrom account none as).outcome with
  | ok ds => rw [governingFrom_outcome hunits as hds]; rfl
  | error f => exact absurd hds (governingFrom_unknown account as f)

/-- Nothing depends on how often or in which order the units are named. -/
theorem governingFrom_congr {keys keys' : List Json.Key} (hsame : ∀ k, k ∈ keys ↔ k ∈ keys')
    (account : Json) (as : List Attachment) :
    governingFrom account (some keys) as = governingFrom account (some keys') as := by
  have hcontains (k : Json.Key) : keys.contains k = keys'.contains k := by
    rw [Bool.eq_iff_iff, List.contains_iff_mem, List.contains_iff_mem, hsame]
  have hcovers (t : Target) : t.covers account (some keys) = t.covers account (some keys') := by
    obtain ⟨kind, id, arn, name⟩ := t
    cases kind with
    | unit => simp only [Target.covers, hcontains]
    | _ => rfl
  have hany (ts : List Target) :
      Target.anyCovers account (some keys) ts = Target.anyCovers account (some keys') ts := by
    induction ts with
    | nil => rfl
    | cons t rest ih => rw [Target.anyCovers, Target.anyCovers, hcovers, ih]
  induction as with
  | nil => rfl
  | cons a rest ih => rw [governingFrom, governingFrom, hany, ih]

theorem governing_congr (hsub : h.Within h') (hsub' : h'.Within h) (as : List Attachment) :
    governing account as (some h) = governing account as (some h') := by
  obtain ⟨keys, keys', hkeys, hkeys', hsub⟩ := hsub
  obtain ⟨ks', ks, hks', hks, hsub'⟩ := hsub'
  obtain rfl := Except.ok.inj (hkeys.symm.trans hks)
  obtain rfl := Except.ok.inj (hkeys'.symm.trans hks')
  rw [governing_some hkeys, governing_some hkeys']
  exact governingFrom_congr (fun k => ⟨@hsub k, @hsub' k⟩) account as

/-! ## Top theorem -/

/-- **The more units are known, the more policies govern, and most while none are known.**  With
the units of the account, with more units and without a hierarchy, each of the lists of attachments
that govern is part of the next one, and all of them keep those of the root and of the account.
The policies are those of these attachments: without a hierarchy always, with more units whenever
they can be picked with less, and in any case where every unit that a policy is attached to
identifies something.  Hierarchies with the same units are not told apart. -/
theorem governing_of_within (hsub : h.Within h') (account : Json) (as : List Attachment) :
    let certain := as.filter fun a => a.targets.any (Target.certain account)
    let few := governors account (some h) as
    let more := governors account (some h') as
    let all := governors account none as
    (certain.Sublist few ∧ few.Sublist more ∧ more.Sublist all) ∧
    (governing account as none).outcome = .ok (all.map policy) ∧
    (∀ ds, (governing account as (some h')).outcome = .ok ds → ds = more.map policy) ∧
    (∀ ds, (governing account as (some h)).outcome = .ok ds → ds = few.map policy ∧
      (governing account as (some h')).outcome = .ok (more.map policy)) ∧
    ((∀ a ∈ as, ∀ t ∈ a.targets, t.kind = .unit → t.id.key? ≠ none) →
      (governing account as (some h)).outcome = .ok (few.map policy)) ∧
    (h'.Within h → governing account as (some h) = governing account as (some h')) := by
  intro certain few more all
  obtain ⟨keys, keys', hkeys, hkeys', -⟩ := id hsub
  refine ⟨⟨?_, ?_, ?_⟩, governing_none account as, fun ds hds => ?_, fun ds hds => ?_,
    fun hkeyed => ?_, fun hsub' => governing_congr hsub hsub' as⟩
  · exact sublist_governors (fun t ht => Target.governs_of_certain ht _) as
  · exact sublist_governors (fun t ht => Target.governs_of_within hsub ht) as
  · exact sublist_governors (fun t ht => Target.governs_none ht) as
  · exact ((governing_eq_ok_iff hkeys' as ds).1 hds).1
  · obtain ⟨hfew, hnone⟩ := (governing_eq_ok_iff hkeys as ds).1 hds
    refine ⟨hfew, (governing_eq_ok_iff hkeys' as _).2 ⟨rfl, fun a ha hstumbles => ?_⟩⟩
    exact hnone a ha (hstumbles.of_within hsub)
  · refine (governing_eq_ok_iff hkeys as _).2 ⟨rfl, ?_⟩
    rintro a ha ⟨before, t, after, hsplit, hunit, hkey, -⟩
    exact hkeyed a ha t (by rw [hsplit]; simp) hunit hkey

/-- A policy that allows nothing, attached to one target. -/
def attachedTo (kind : TargetKind) (id : Json) : Attachment := ⟨⟨[], "", ""⟩, [⟨kind, id, "", ""⟩]⟩

/-- Of six attachments two are certain, one unit more is one attachment more, and without a
hierarchy only another account is left out. -/
theorem governing_of_within_units :
    let as := [attachedTo .root "r", attachedTo .unit "ou-a", attachedTo .account "2",
      attachedTo .unit "ou-b", attachedTo .account "1", attachedTo .unit "ou-c"]
    let h : Hierarchy := ⟨"1", ["ou-a"].map .str⟩
    let h' : Hierarchy := ⟨"1", ["ou-b", "ou-a", "ou-b"].map .str⟩
    h.Within h' ∧ ∃ few more all,
      (governing "1" as (some h)).outcome = .ok few ∧ few.length = 3 ∧ few.Sublist more ∧
      (governing "1" as (some h')).outcome = .ok more ∧ more.length = 4 ∧ more.Sublist all ∧
      (governing "1" as none).outcome = .ok all ∧ all.length = 5 := by
  intro as h h'
  have hsub : h.Within h' := (Hierarchy.within_texts "1" "1" _ _).2 (by decide)
  obtain ⟨⟨-, hfew, hmore⟩, hall, -, hpicked, htotal, -⟩ := governing_of_within hsub "1" as
  have hdone := htotal (by decide)
  exact ⟨hsub, _, _, _, hdone, rfl, hfew.map policy, (hpicked _ hdone).2, rfl, hmore.map policy,
    hall, rfl⟩

end Attachment

end

end CloudAccess
