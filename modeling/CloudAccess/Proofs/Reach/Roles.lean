import CloudAccess.Proofs.Decision.Meaning
import CloudAccess.Proofs.Sorting
import CloudAccess.Reach.Paths
import Mathlib.Data.String.Basic

/-!
# The roles that a principal can step into

Someone may step into a role that trusts them, everyone, or their account (`Graph.MayEnter`).  On
a graph whose identifiers are texts the trust can be read, and it is the one that the records of
the roles say (`TrustGraph.IsOf`).  So the roles of every principal come as texts in strictly
ascending order, and are those it may step into:

    g.Textual → ∃ t, TrustGraph.ofGraph g = .ok t ∧
      ∀ q, ∃ rs, (g.rolesFor ev (.ok t) c q).outcome = .ok (rs.map .text) ∧
        rs.Pairwise (· < ·) ∧ ∀ r, r ∈ rs ↔ r ≠ q ∧ g.MayEnter ev c q r  (Graph.rolesFor_textual)

Lists of identifiers that are texts are handled as the lists of the texts (`map_text`).
-/

namespace CloudAccess

open Condition (Evaluator)

/-! ## Lists without duplicates -/

/-- Without duplicates a list is its first item and the others that differ from it, without
duplicates. -/
theorem eraseDups_induction {α : Type} [BEq α] {motive : List α → Prop} (nil : motive [])
    (cons : ∀ a rest, motive (rest.filter fun b => !b == a) → motive (a :: rest)) (l : List α) :
    motive l := by
  induction hn : l.length using Nat.strongRecOn generalizing l with
  | ind n ih =>
    cases l with
    | nil => exact nil
    | cons a rest =>
      have hlt : (rest.filter fun b => !b == a).length < n := by
        have hle := List.length_filter_le (fun b => !b == a) rest
        rw [List.length_cons] at hn
        omega
      exact cons a rest (ih _ hlt _ rfl)

/-- What is left without duplicates has none. -/
theorem nodup_eraseDups {α : Type} [BEq α] [LawfulBEq α] (l : List α) : l.eraseDups.Nodup := by
  induction l using eraseDups_induction with
  | nil => exact List.nodup_nil
  | cons a rest ih =>
    rw [List.eraseDups_cons, List.nodup_cons]
    refine ⟨fun hm => ?_, ih⟩
    rw [List.mem_eraseDups, List.mem_filter] at hm
    simp at hm

theorem eraseDups_subset {α : Type} [BEq α] (l : List α) : l.eraseDups ⊆ l := by
  induction l using eraseDups_induction with
  | nil => exact List.Subset.refl _
  | cons a rest ih =>
    rw [List.eraseDups_cons]
    exact List.cons_subset_cons a fun b hb => List.mem_of_mem_filter (ih hb)

/-- How items are written does not matter for their duplicates, as long as different ones stay
different. -/
theorem eraseDups_map {α β : Type} [BEq α] [BEq β] {f : α → β}
    (hf : ∀ a b, (f a == f b) = (a == b)) (l : List α) :
    (l.map f).eraseDups = l.eraseDups.map f := by
  induction l using eraseDups_induction with
  | nil => rfl
  | cons a rest ih =>
    have hfilter : (rest.map f).filter (fun b => !b == f a) =
        (rest.filter fun b => !b == a).map f := by
      rw [List.filter_map]
      congr 1
      exact List.filter_congr fun b _ => congrArg (!·) (hf b a)
    rw [List.map_cons, List.eraseDups_cons, List.eraseDups_cons, hfilter, ih]
    rfl

/-- Texts without duplicates are strictly ascending once sorted. -/
theorem pairwise_lt_mergeSort {l : List String} (h : l.Nodup) : l.mergeSort.Pairwise (· < ·) := by
  have hle : l.mergeSort.Pairwise fun a b => decide (a ≤ b) = true := by
    refine List.pairwise_mergeSort (fun a b c hab hbc => ?_) (fun a b => ?_) l
    · rw [decide_eq_true_eq] at hab hbc ⊢
      exact le_trans hab hbc
    · rw [Bool.or_eq_true, decide_eq_true_eq, decide_eq_true_eq]
      exact le_total a b
  have hne : l.mergeSort.Nodup := (List.mergeSort_perm l _).nodup_iff.2 h
  refine (hle.and hne).imp fun {a b} hab => ?_
  exact lt_of_le_of_ne (of_decide_eq_true hab.1) hab.2

namespace Identifier

theorem map_text {l : List Identifier} (h : ∀ i ∈ l, ∃ a, i = text a) :
    ∃ ts : List String, l = ts.map text := by
  induction l with
  | nil => exact ⟨[], rfl⟩
  | cons i rest ih =>
    obtain ⟨a, rfl⟩ := h i List.mem_cons_self
    obtain ⟨ts, rfl⟩ := ih fun j hj => h j (List.mem_cons_of_mem _ hj)
    exact ⟨a :: ts, rfl⟩

theorem text_inj {a b : String} (h : text a = text b) : a = b := by
  have hb : (text a == text b) = true := by rw [h]; exact BEq.rfl
  simpa using hb

theorem mem_map_text (ts : List String) (a : String) : text a ∈ ts.map text ↔ a ∈ ts := by
  rw [List.mem_map]
  constructor
  · rintro ⟨b, hb, he⟩
    exact text_inj he ▸ hb
  · intro ha
    exact ⟨a, ha, rfl⟩

theorem contains_map_text (ts : List String) (a : String) :
    (ts.map text).contains (text a) = decide (a ∈ ts) := by
  induction ts with
  | nil => rfl
  | cons t rest ih =>
    rw [List.map_cons, List.contains_cons, ih, text_beq]
    simp

theorem eraseDups_map_text (ts : List String) :
    (ts.map text).eraseDups = ts.eraseDups.map text :=
  eraseDups_map text_beq ts

theorem eq_text {i : Identifier} {s : String} (h : i.text? = some s) : i = text s := by
  obtain ⟨v, k, hk⟩ := i
  cases k with
  | str t =>
    obtain rfl := Option.some.inj h
    obtain rfl := Json.eq_str_of_key? hk
    rfl
  | _ => cases h

theorem eraseDups_keys (ids : List Identifier) :
    (ids.map key).eraseDups = ids.eraseDups.map key :=
  eraseDups_map (f := key) (fun _ _ => rfl) ids

theorem eq_map_text {ids : List Identifier} {texts : List String}
    (h : ids.mapM text? = some texts) : ids = texts.map text := by
  induction ids generalizing texts with
  | nil =>
    obtain rfl := Option.some.inj h
    rfl
  | cons i rest ih =>
    rw [List.mapM_cons] at h
    obtain ⟨s, hs, h⟩ := Option.bind_eq_some_iff.1 h
    obtain ⟨ts, hts, h⟩ := Option.bind_eq_some_iff.1 h
    obtain rfl := Option.some.inj h
    rw [eq_text hs, ih hts]
    rfl

/-- Sorted identifiers are the same ones in another order. -/
theorem perm_of_sort {ids sorted : List Identifier} (h : sort ids = .ok sorted) :
    sorted.Perm ids := by
  unfold sort at h
  split at h
  · next texts htexts =>
    obtain rfl := Except.ok.inj h
    rw [eq_map_text htexts]
    exact (List.mergeSort_perm texts _).map text
  · exact perm_of_sortWith h

end Identifier

/-! ## Reading the trust -/

namespace Graph

variable (g : Graph)

/-- A principal of the graph whose record says that it is a role. -/
def HasRole (r : String) : Prop :=
  (g.principal? r).isSome = true ∧ ∃ P ∈ g.principals.values, P.arn = .str r ∧ P.kind = .role

/-- Someone may step into a role: it trusts them by name, it trusts everyone, or it trusts their
account and they are permitted to assume it.  The root of an account is not trusted as one of the
account. -/
def MayEnter (ev : Evaluator) (c : Context) (q r : String) : Prop :=
  g.HasRole r ∧ (q ∈ g.trustors r ∨ Arn.anyone ∈ g.trustors r ∨
    ∃ account, Arn.account? q = some account ∧ Arn.isAccountRoot q = false ∧
      Arn.accountRoot account ∈ g.trustors r ∧
      (g.permits ev ⟨assumeRole, .str r, c⟩ (.str q)).outcome = .ok true)

/-- The record of a role says whom it is trusted to. -/
def Trusts (trustor r : String) : Prop :=
  (∃ P ∈ g.principals.values, P.arn = .str r ∧ P.kind = .role) ∧ trustor ∈ g.trustors r

end Graph

namespace TrustGraph

/-- Only roles are trusted, under the name that their record gives. -/
theorem of_mem_edgesTo {g : Graph} {p : Principal}
    {es : List (String × Identifier)} (h : edgesTo g p = .ok es) {e : String × Identifier}
    (he : e ∈ es) :
    p.kind = .role ∧ Identifier.ofJson? p.arn = some e.2 := by
  unfold edgesTo at h
  split at h
  · next role hkind hrole =>
    dsimp only at h
    split at h
    · cases h
    · obtain rfl := Except.ok.inj h
      obtain ⟨trustor, -, rfl⟩ := List.mem_map.1 he
      exact ⟨hkind, hrole⟩
  · obtain rfl := Except.ok.inj h
    exact absurd he List.not_mem_nil

/-- The trust in a principal that is named by a text can be read. -/
theorem edgesTo_textual (g : Graph) {p : Principal} {a : String} (ha : p.arn = .str a) :
    ∃ es, edgesTo g p = .ok es ∧ ∀ trustor role, (trustor, role) ∈ es ↔
      p.kind = .role ∧ role = .text a ∧ trustor ∈ g.trustors a := by
  have hid : Identifier.ofJson? p.arn = some (.text a) := by
    rw [ha]
    rfl
  unfold edgesTo
  rw [hid]
  cases p.kind with
  | role =>
    refine ⟨(g.trustors a).eraseDups.map (·, .text a), rfl, fun trustor role => ?_⟩
    rw [List.mem_map]
    constructor
    · rintro ⟨t, ht, he⟩
      obtain ⟨rfl, rfl⟩ := Prod.mk.inj he
      exact ⟨rfl, rfl, List.mem_eraseDups.1 ht⟩
    · rintro ⟨-, rfl, ht⟩
      exact ⟨trustor, List.mem_eraseDups.2 ht, rfl⟩
  | _ => exact ⟨[], rfl, fun trustor role => by simp⟩

/-- The trust that was read is that of a graph. -/
def IsOf (t : TrustGraph) (g : Graph) : Prop :=
  ∀ trustor role, (trustor, role) ∈ t.edges ↔ ∃ r, role = .text r ∧ g.Trusts trustor r

/-- The trust of a graph whose identifiers are texts can be read. -/
theorem ofGraph_textual {g : Graph} (hg : g.Textual) : ∃ t, ofGraph g = .ok t ∧ t.IsOf g := by
  obtain ⟨ess, hess⟩ := mapM_ok fun p (hp : p ∈ g.principals.values) => by
    obtain ⟨a, ha⟩ := hg.arns p hp
    obtain ⟨es, hes, -⟩ := edgesTo_textual g ha
    exact ⟨es, hes⟩
  refine ⟨⟨ess.flatten⟩, ?_, fun trustor role => ?_⟩
  · unfold ofGraph
    rw [hess]
    rfl
  · rw [List.mem_flatten]
    constructor
    · rintro ⟨es, hes, he⟩
      obtain ⟨P, hP, hread⟩ := (mem_of_mapM hess es).1 hes
      obtain ⟨a, ha⟩ := hg.arns P hP
      obtain ⟨es', hread', hmem⟩ := edgesTo_textual g ha
      obtain rfl := Except.ok.inj (hread.symm.trans hread')
      obtain ⟨hkind, rfl, ht⟩ := (hmem trustor role).1 he
      exact ⟨a, rfl, ⟨P, hP, ha, hkind⟩, ht⟩
    · rintro ⟨a, rfl, ⟨P, hP, ha, hkind⟩, ht⟩
      obtain ⟨es, hread, hmem⟩ := edgesTo_textual g ha
      exact ⟨es, (mem_of_mapM hess es).2 ⟨P, hP, hread⟩, (hmem trustor _).2 ⟨hkind, rfl, ht⟩⟩

theorem mem_successors {t : TrustGraph} {trustor : String} {role : Identifier} :
    role ∈ t.successors trustor ↔ (trustor, role) ∈ t.edges := by
  unfold successors
  rw [List.mem_filterMap]
  constructor
  · rintro ⟨⟨id, r⟩, he, hs⟩
    replace hs : (if id = trustor then some r else none) = some role := hs
    by_cases hid : id = trustor
    · rw [if_pos hid] at hs
      obtain rfl := Option.some.inj hs
      exact hid ▸ he
    · rw [if_neg hid] at hs
      cases hs
  · intro he
    exact ⟨(trustor, role), he, if_pos rfl⟩

/-! ## Roles that are trusted to someone -/

section Subset

variable {g : Graph} {ev : Evaluator} {c : Context} {id : String} (t : TrustGraph)

theorem successors_subset (trustor : String) : t.successors trustor ⊆ t.roles :=
  fun _ hr => List.mem_map.2 ⟨_, mem_successors.1 hr, rfl⟩

theorem openTo_subset (id : String) : t.openTo id ⊆ t.roles :=
  List.append_subset.2 ⟨t.successors_subset id, t.successors_subset Arn.anyone⟩

theorem openToAccount_subset (id : String) : t.openToAccount id ⊆ t.roles := by
  unfold openToAccount
  split
  · exact List.nil_subset _
  · split
    · exact List.nil_subset _
    · exact t.successors_subset _

theorem permitted_subset {roles found : List Identifier}
    (h : (permitted g ev c id roles).outcome = .ok found) : found ⊆ roles := by
  induction roles generalizing found with
  | nil =>
    obtain rfl := Except.ok.inj h
    exact List.Subset.refl _
  | cons role rest ih =>
    rw [permitted, Traced.outcome_bind] at h
    obtain ⟨ok, -, h⟩ := bind_eq_ok h
    rw [Traced.outcome_bind] at h
    obtain ⟨others, hothers, h⟩ := bind_eq_ok h
    obtain rfl := Except.ok.inj h
    cases ok with
    | true => exact List.cons_subset_cons role (ih hothers)
    | false => exact List.subset_cons_of_subset role (ih hothers)

variable {t}

/-- The roles that someone can step into are trusted to someone. -/
theorem rolesOf_subset {roles : List Identifier}
    (h : (t.rolesOf g ev c id).outcome = .ok roles) : roles ⊆ t.roles := by
  unfold rolesOf at h
  rw [Traced.outcome_bind] at h
  obtain ⟨indirect, hindirect, h⟩ := bind_eq_ok h
  have hboth : t.openTo id ++ indirect ⊆ t.roles :=
    List.append_subset.2 ⟨t.openTo_subset id, fun r hr =>
      t.openToAccount_subset id (List.mem_of_mem_filter (permitted_subset hindirect hr))⟩
  intro r hr
  have hothers := List.mem_of_mem_filter ((Identifier.perm_of_sort h).mem_iff.1 hr)
  exact hboth (eraseDups_subset _ (List.mem_of_mem_filter hothers))

end Subset

namespace IsOf

variable {t : TrustGraph} {g : Graph} (h : t.IsOf g)

include h

theorem texts : ∀ r ∈ t.roles, ∃ a, r = .text a := by
  intro r hr
  obtain ⟨⟨trustor, role⟩, he, rfl⟩ := List.mem_map.1 hr
  obtain ⟨a, ha, -⟩ := (h trustor role).1 he
  exact ⟨a, ha⟩

theorem mem_edges (trustor r : String) : (trustor, .text r) ∈ t.edges ↔ g.Trusts trustor r := by
  rw [h]
  constructor
  · rintro ⟨a, ha, ht⟩
    exact Identifier.text_inj ha ▸ ht
  · exact fun ht => ⟨r, rfl, ht⟩

theorem mem_openTo (q r : String) :
    .text r ∈ t.openTo q ↔ g.Trusts q r ∨ g.Trusts Arn.anyone r := by
  unfold openTo
  rw [List.mem_append, mem_successors, mem_successors, h.mem_edges, h.mem_edges]

theorem mem_openToAccount (q r : String) : .text r ∈ t.openToAccount q ↔
    ∃ account, Arn.account? q = some account ∧ Arn.isAccountRoot q = false ∧
      g.Trusts (Arn.accountRoot account) r := by
  unfold openToAccount
  cases Arn.account? q with
  | none => simp
  | some account =>
    cases Arn.isAccountRoot q with
    | true => simp
    | false => simp [mem_successors, h.mem_edges]

/-- All who are trusted with something are trusted with a role that was read. -/
theorem mem_roles {trustor r : String} (ht : g.Trusts trustor r) : .text r ∈ t.roles :=
  List.mem_map.2 ⟨(trustor, .text r), (h.mem_edges trustor r).2 ht, rfl⟩

theorem openTo_texts (q : String) : ∃ rs : List String, t.openTo q = rs.map .text :=
  Identifier.map_text fun r hr => h.texts r (t.openTo_subset q hr)

theorem openToAccount_texts (q : String) :
    ∃ rs : List String, t.openToAccount q = rs.map .text :=
  Identifier.map_text fun r hr => h.texts r (t.openToAccount_subset q hr)

end IsOf

/-- Whether a role may be assumed is always decided for texts. -/
theorem permitted_textual {g : Graph} (hg : g.Textual) (ev : Evaluator) (c : Context) (id : String)
    (ts : List String) : ∃ us : List String,
      (permitted g ev c id (ts.map .text)).outcome = .ok (us.map .text) ∧
      ∀ r, r ∈ us ↔ r ∈ ts ∧
        (g.permits ev ⟨assumeRole, .str r, c⟩ (.str id)).outcome = .ok true := by
  induction ts with
  | nil => exact ⟨[], rfl, fun r => by simp⟩
  | cons r rest ih =>
    obtain ⟨us, hus, hmem⟩ := ih
    rw [List.map_cons, permitted]
    have hsplit := Graph.permits_splits hg ⟨ev, c, assumeRole, r⟩ id
    change Splits (g.permits ev ⟨assumeRole, .str r, c⟩ (.str id)).outcome _ true false at hsplit
    rcases hsplit with ⟨-, ho⟩ | ⟨-, ho⟩
    · refine ⟨r :: us, ?_, fun s => ?_⟩
      · simp only [Traced.outcome_bind, hus]
        rw [show (g.permits ev ⟨assumeRole, (Identifier.text r).value, c⟩ (.str id)).outcome =
          .ok true from ho]
        rfl
      · rw [List.mem_cons, List.mem_cons, hmem, or_and_right]
        refine or_congr_left ⟨fun hs => ⟨hs, hs ▸ ho⟩, And.left⟩
    · refine ⟨us, ?_, fun s => ?_⟩
      · simp only [Traced.outcome_bind, hus]
        rw [show (g.permits ev ⟨assumeRole, (Identifier.text r).value, c⟩ (.str id)).outcome =
          .ok false from ho]
        rfl
      · rw [List.mem_cons, hmem, or_and_right, or_iff_right]
        rintro ⟨rfl, hs⟩
        rw [ho] at hs
        cases hs

/-- The roles of a principal are texts in strictly ascending order: those it may step into, save
itself. -/
theorem rolesOf_textual {t : TrustGraph} {g : Graph} (hg : g.Textual) (ht : t.IsOf g)
    (ev : Evaluator) (c : Context) (id : String) :
    ∃ rs : List String, (t.rolesOf g ev c id).outcome = .ok (rs.map .text) ∧
      rs.Pairwise (· < ·) ∧ ∀ r, r ∈ rs ↔ r ≠ id ∧ g.MayEnter ev c id r := by
  obtain ⟨ds, hds⟩ := ht.openTo_texts id
  obtain ⟨as, has⟩ := ht.openToAccount_texts id
  let ts := as.filter fun r => !decide (r ∈ ds)
  have hts : ((t.openToAccount id).filter fun r => !(t.openTo id).contains r) =
      ts.map Identifier.text := by
    rw [has, hds, List.filter_map]
    congr 1
    refine List.filter_congr fun r _ => ?_
    exact congrArg (!·) (Identifier.contains_map_text ds r)
  obtain ⟨us, hus, hpermitted⟩ := permitted_textual hg ev c id ts
  let others : List String := ((ds ++ us).eraseDups.filter fun r : String => !(r == id)).filter
    fun r : String => (g.principal? r).isSome
  have hothers : (((ds.map Identifier.text ++ us.map Identifier.text).eraseDups.filter fun r =>
      !(r == Identifier.text id)).filter fun r => (g.principal? r).isSome) =
      others.map Identifier.text := by
    rw [← List.map_append, Identifier.eraseDups_map_text, List.filter_map, List.filter_map]
    have hne (r : String) : ((fun r => !(r == Identifier.text id)) ∘ Identifier.text) r =
        !(r == id) := by
      show (!Identifier.text r == .text id) = !(r == id)
      rw [Identifier.text_beq]
      rfl
    rw [List.filter_congr fun r _ => hne r]
    rfl
  have hrun : (t.rolesOf g ev c id).outcome = .ok (others.mergeSort.map .text) := by
    unfold rolesOf
    simp only [Traced.outcome_bind, Traced.outcome_ofExcept]
    rw [hts, hus, ok_bind, hds, hothers, Identifier.sort_texts]
  refine ⟨others.mergeSort, hrun, pairwise_lt_mergeSort ?_, fun r => ?_⟩
  · exact ((nodup_eraseDups (ds ++ us)).filter _).filter _
  · have hdirect : r ∈ ds ↔ g.Trusts id r ∨ g.Trusts Arn.anyone r := by
      rw [← Identifier.mem_map_text, ← hds, ht.mem_openTo]
    have haccount : r ∈ as ↔ ∃ account, Arn.account? id = some account ∧
        Arn.isAccountRoot id = false ∧ g.Trusts (Arn.accountRoot account) r := by
      rw [← Identifier.mem_map_text, ← has, ht.mem_openToAccount]
    have hmem : r ∈ others.mergeSort ↔
        ((r ∈ ds ∨ r ∈ us) ∧ r ≠ id) ∧ (g.principal? r).isSome = true := by
      rw [List.mem_mergeSort, List.mem_filter, List.mem_filter, List.mem_eraseDups,
        List.mem_append, Bool.not_eq_true', beq_eq_false_iff_ne]
    have hus' : r ∈ us ↔ (r ∈ as ∧ r ∉ ds) ∧
        (g.permits ev ⟨assumeRole, .str r, c⟩ (.str id)).outcome = .ok true := by
      rw [hpermitted, List.mem_filter, Bool.not_eq_true', decide_eq_false_iff_not]
    rw [hmem]
    constructor
    · rintro ⟨⟨hr | hr, hne⟩, hp⟩
      · rcases hdirect.1 hr with ⟨hrole, ht⟩ | ⟨hrole, ht⟩
        · exact ⟨hne, ⟨hp, hrole⟩, .inl ht⟩
        · exact ⟨hne, ⟨hp, hrole⟩, .inr (.inl ht)⟩
      · obtain ⟨⟨has, -⟩, hok⟩ := hus'.1 hr
        obtain ⟨account, hacc, hroot, hrole, ht⟩ := haccount.1 has
        exact ⟨hne, ⟨hp, hrole⟩, .inr (.inr ⟨account, hacc, hroot, ht, hok⟩)⟩
    · rintro ⟨hne, ⟨hp, hrole⟩, ht⟩
      refine ⟨⟨?_, hne⟩, hp⟩
      rcases ht with ht | ht | ⟨account, hacc, hroot, ht, hok⟩
      · exact .inl (hdirect.2 (.inl ⟨hrole, ht⟩))
      · exact .inl (hdirect.2 (.inr ⟨hrole, ht⟩))
      · by_cases hd : r ∈ ds
        · exact .inl hd
        · exact .inr (hus'.2 ⟨⟨haccount.2 ⟨account, hacc, hroot, hrole, ht⟩, hd⟩, hok⟩)

end TrustGraph

/-- **The roles of a principal.**  On a graph whose identifiers are texts they can always be told.
They are those that the principal may step into, save itself, in strictly ascending order. -/
theorem Graph.rolesFor_textual {g : Graph} (hg : g.Textual) :
    ∃ t, TrustGraph.ofGraph g = .ok t ∧ t.IsOf g ∧
      ∀ (ev : Evaluator) (c : Context) (q : String), ∃ rs : List String,
        (g.rolesFor ev (.ok t) c q).outcome = .ok (rs.map .text) ∧
          rs.Pairwise (· < ·) ∧ ∀ r, r ∈ rs ↔ r ≠ q ∧ g.MayEnter ev c q r := by
  obtain ⟨t, ho, ht⟩ := TrustGraph.ofGraph_textual hg
  refine ⟨t, ho, ht, fun ev c q => ?_⟩
  obtain ⟨rs, hrs, hsorted, hmem⟩ := TrustGraph.rolesOf_textual hg ht ev c q
  refine ⟨rs, ?_, hsorted, hmem⟩
  unfold rolesFor
  simp only [Traced.outcome_bind, Traced.outcome_ofExcept, ok_bind]
  exact hrs

end CloudAccess
