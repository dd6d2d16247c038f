import CloudAccess.Proofs.Reach.Search
import Mathlib

/-!
# The hop bound

How far a search may go only cuts its answer short: what is found within fewer hops is the part of
what is found within more hops that has no more hops than that.

    h ≤ h' → found within h = the paths found within h' that have at most max 1 h hops
                                                                              (paths_within)

The first round of a search comes before the bound is looked at.  So a search that may not go
anywhere still finds the access that the source itself has, which is a path of one hop
(`Oracle.search_shallow`, `path_beyond_bound`).

* `Arrivals.within`: the routes that arrive within fewer hops are among those within more.
* `Arrivals.unique`: there is only one list of them.
* `take_filter_of_pairwise`: the shorter ones come first, so the room for paths does not matter.
-/

namespace CloudAccess

open Condition (Evaluator)
open CloudAccess.Graph (Bounds)

/-- When what passes a test comes first, the first items that pass are those among the first. -/
theorem take_filter_of_pairwise {α : Type} {p : α → Bool} {l : List α}
    (h : l.Pairwise fun a b => p b = true → p a = true) (k : Nat) :
    (l.filter p).take k = (l.take k).filter p := by
  induction l generalizing k with
  | nil => rw [List.filter_nil, List.take_nil, List.filter_nil]
  | cons a rest ih =>
    obtain ⟨ha, hrest⟩ := List.pairwise_cons.1 h
    cases k with
    | zero => rw [List.take_zero, List.take_zero, List.filter_nil]
    | succ k =>
      rw [List.take_succ_cons]
      by_cases hp : p a = true
      · rw [List.filter_cons_of_pos hp, List.filter_cons_of_pos hp, List.take_succ_cons,
          ih hrest]
      · have hnone : rest.filter p = [] :=
          List.filter_eq_nil_iff.2 fun b hb hpb => hp (ha b hb hpb)
        rw [List.filter_cons_of_neg hp, List.filter_cons_of_neg hp, ← ih hrest, hnone,
          List.take_nil, List.take_nil]

/-! ## Routes within fewer hops -/

namespace Arrivals

variable {access : String → Bool} {next : String → List String} {source : String}
  {h h' : Int} {n : Nat} {ls ls' : List (List String)}

theorem within (ha : Arrivals access next source h' n ls) (hle : h ≤ h') :
    Arrivals access next source h n (ls.filter fun l => (l.length : Int) + 1 ≤ h) where
  sorted := ha.sorted.filter _
  mem_iff l := by
    rw [List.mem_filter, ha.mem_iff, decide_eq_true_eq]
    constructor
    · rintro ⟨⟨hroute, hn, -, harrives⟩, hhops⟩
      exact ⟨hroute, hn, hhops, harrives⟩
    · rintro ⟨hroute, hn, hhops, harrives⟩
      exact ⟨⟨hroute, hn, by omega, harrives⟩, hhops⟩

theorem unique (ha : Arrivals access next source h n ls)
    (ha' : Arrivals access next source h n ls') : ls = ls' := by
  have hperm : ls.Perm ls' := by
    refine (List.perm_ext_iff_of_nodup ?_ ?_).2 fun l => (ha.mem_iff l).trans (ha'.mem_iff l).symm
    · exact ha.sorted.imp fun hab => ne_of_irrefl hab
    · exact ha'.sorted.imp fun hab => ne_of_irrefl hab
  exact hperm.eq_of_pairwise (fun a b _ _ hab hba => absurd hba (asymm hab)) ha.sorted ha'.sorted

/-- The routes within fewer hops come first. -/
theorem take_within (ha : Arrivals access next source h' n ls) (k : Nat) :
    (ls.filter fun l => (l.length : Int) + 1 ≤ h).take k =
      (ls.take k).filter fun l => (l.length : Int) + 1 ≤ h := by
  refine take_filter_of_pairwise (ha.sorted.imp fun {a b} hab hb => ?_) k
  rw [decide_eq_true_eq] at hb ⊢
  have hlength : a.length ≤ b.length := by
    rcases List.shortlex_def.1 hab with hlt | ⟨heq, -⟩
    · exact hlt.le
    · exact heq.le
  omega

end Arrivals

/-! ## Searches that may not go anywhere -/

/-- The first round comes before the bound: a search within less than one hop is one within a single
hop. -/
theorem Oracle.search_shallow {o : Oracle} {access : String → Bool} {next : String → List String}
    (ho : o.Answers access next) (source : String) (fresh : List String) (room : Nat) (h : Int) :
    (o.search h (fresh.map .text) 1 room [Chain.along source []]).outcome =
      (o.search (max 1 h) (fresh.map .text) 1 room [Chain.along source []]).outcome := by
  rcases le_or_gt 1 h with hle | hlt
  · rw [max_eq_right hle]
  · rw [max_eq_left hlt.le]
    have hstep (h : Int) : (o.search h (fresh.map .text) 1 room [Chain.along source []]).outcome =
      _ := search_step ho h fresh 0 room [[]]
    rw [hstep h, hstep 1, decide_eq_false (by omega), decide_eq_false (by omega)]
    simp only [continued_false, if_true]

namespace Graph

/-- What exploring the graph finds, whatever the bounds. -/
theorem Known.explore_within {g : Graph} {x : Setting} {access : String → Bool}
    {next : String → List String} {ts : List String} (h : g.Known x access next ts)
    (source : String) (b : Bounds) :
    ∃ found, Arrivals access next source (max 1 b.maxHops) 0 found ∧
      (g.explore x.evaluator (.ofContext x.context) source x.target x.action b).1.outcome =
        .ok ((found.take b.maxPaths.toNat).map (Chain.along source)) := by
  have hhops : 1 ≤ ({ b with maxHops := max 1 b.maxHops } : Bounds).maxHops := le_max_left _ _
  obtain ⟨found, hfound, ho⟩ := h.explore_outcome source hhops
  refine ⟨found, hfound, ?_⟩
  rw [← ho, explore_eq, explore_eq, Viewpoint.trustOn_ofContext, h.enterable]
  exact Oracle.search_shallow h.answers source _ _ b.maxHops

theorem hops_ofChain_along (source target action : String) (l : List String) :
    (Path.ofChain source target action (Chain.along source l)).hops.length = l.length + 1 := by
  rw [Path.ofChain_along, Path.ofRoute]
  simp

/-- **The hop bound is a bound.**  On a graph whose identifiers are texts a search within some hops
finds the part of what a search within more hops finds that has no more hops than that, in the same
order and whatever the room for paths; but one hop is always let through. -/
theorem paths_within {g : Graph} (hg : g.Textual) (x : Setting) {source : String} {P : Principal}
    {R : Resource} (hs : g.principal? source = some P) (ht : g.resource? x.target = some R)
    {h h' : Int} (hle : h ≤ h') (maxPaths : Int) :
    ∃ found found' : List Path,
      (g.paths x.evaluator (.ofContext x.context) source x.target x.action
        ⟨h, maxPaths⟩).2.outcome = .ok found ∧
      (g.paths x.evaluator (.ofContext x.context) source x.target x.action
        ⟨h', maxPaths⟩).2.outcome = .ok found' ∧
      found = found'.filter fun p => (p.hops.length : Int) ≤ max 1 h := by
  obtain ⟨access, next, ts, hknown⟩ := exists_known hg x
  obtain ⟨few, hfew, hexplore⟩ := hknown.explore_within source ⟨h, maxPaths⟩
  obtain ⟨more, hmore, hexplore'⟩ := hknown.explore_within source ⟨h', maxPaths⟩
  refine ⟨_, _, paths_outcome hs ht hexplore, paths_outcome hs ht hexplore', ?_⟩
  have hbounds : max 1 h ≤ max 1 h' := max_le_max_left 1 hle
  rw [hfew.unique (hmore.within hbounds), hmore.take_within, List.filter_map, List.filter_map]
  congr 2
  refine List.filter_congr fun l _ => ?_
  simp only [Function.comp_apply, hops_ofChain_along, Nat.cast_add, Nat.cast_one]

/-- Within one hop the member finds nothing, within two hops the path through the role. -/
theorem paths_within_memberOfRole :
    let x : Setting := ⟨fun _ _ => .ok true, .empty, "read", "file"⟩
    memberOfRole.Textual ∧ (memberOfRole.principal? "member").isSome = true ∧
      (memberOfRole.resource? "file").isSome = true ∧ (1 : Int) ≤ 2 ∧
      ∃ found found' : List Path,
        (memberOfRole.paths x.evaluator (.ofContext x.context) "member" "file" "read"
          ⟨1, 10⟩).2.outcome = .ok found ∧
        (memberOfRole.paths x.evaluator (.ofContext x.context) "member" "file" "read"
          ⟨2, 10⟩).2.outcome = .ok found' ∧
        (found = found'.filter fun p => (p.hops.length : Int) ≤ max 1 1) ∧
        found' = [Path.ofRoute "member" "file" "read" ["member", "role"]] := by
  intro x
  have hs : memberOfRole.principal? "member" = some member := rfl
  obtain ⟨found, found', ho, ho', hfilter⟩ :=
    paths_within memberOfRole_textual x hs rfl (show (1 : Int) ≤ 2 by decide) 10
  have hrun : (memberOfRole.paths x.evaluator (.ofContext x.context) "member" "file" "read"
      ⟨2, 10⟩).2.outcome = .ok [Path.ofRoute "member" "file" "read" ["member", "role"]] := by
    cbv
  exact ⟨memberOfRole_textual, rfl, rfl, by decide, found, found', ho, ho', hfilter,
    Except.ok.inj (ho'.symm.trans hrun)⟩

/-- A search that is allowed no hop finds the access of the role itself, a path of one hop. -/
theorem path_beyond_bound :
    let x : Setting := ⟨fun _ _ => .ok true, .empty, "read", "file"⟩
    memberOfRole.Textual ∧ (memberOfRole.principal? "role").isSome = true ∧
      (memberOfRole.resource? "file").isSome = true ∧
      ¬ ∀ found, (memberOfRole.paths x.evaluator (.ofContext x.context) "role" "file" "read"
        ⟨0, 10⟩).2.outcome = .ok found → ∀ p ∈ found, (p.hops.length : Int) ≤ 0 := by
  intro x
  refine ⟨memberOfRole_textual, rfl, rfl, fun hbound => ?_⟩
  have hrun : (memberOfRole.paths x.evaluator (.ofContext x.context) "role" "file" "read"
      ⟨0, 10⟩).2.outcome = .ok [Path.ofRoute "role" "file" "read" ["role"]] := by
    cbv
  have hhops := hbound _ hrun _ (List.mem_singleton_self _)
  revert hhops
  decide

end Graph
end CloudAccess
