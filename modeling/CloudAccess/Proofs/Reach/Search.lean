import CloudAccess.Proofs.Reach.Roles
import CloudAccess.Proofs.Reach.Routes
import Mathlib

/-!
# What the search for paths finds

The search goes through the levels of routes.  What it has found when it ends is the beginning
of the list of all routes that arrive:

    Level … n ls → ∃ found, Arrivals … n found ∧
      (o.search … ls).outcome = .ok (the first of found)                (Oracle.search_outcome)

The roles that stay fresh are the ones not yet reached: `Oracle.Fresh` is the invariant from one
level to the next, and `Oracle.search_step` one round.  The paths in a graph are those along the
first routes that arrive, by what the graph answers (`Graph.Known`).
-/

namespace CloudAccess

open Condition (Evaluator)

/-! ## Chains -/

namespace Chain

/-- The chain of the names after a source. -/
def along (source : String) (l : List String) : Chain :=
  l.foldl (fun c r => c.step (.text r)) (.single (.text source))

theorem members_step (c : Chain) (id : Identifier) : (c.step id).members = c.members ++ [id] := by
  show (id :: c.last :: c.before).reverse = _
  rw [List.reverse_cons]
  rfl

variable (source : String) (l : List String)

theorem along_snoc (r : String) : along source (l ++ [r]) = (along source l).step (.text r) := by
  unfold along
  rw [List.foldl_append]
  rfl

theorem along_last : (along source l).last = .text (l.getLastD source) := by
  induction l using List.reverseRecOn with
  | nil => rfl
  | append_singleton l r _ =>
    rw [along_snoc, List.getLastD_concat]
    rfl

theorem along_members : (along source l).members = (source :: l).map Identifier.text := by
  induction l using List.reverseRecOn with
  | nil => rfl
  | append_singleton l r ih =>
    rw [along_snoc, members_step, ih, ← List.cons_append, List.map_append]
    rfl

end Chain

/-! ## One level -/

namespace Oracle

/-- An oracle that answers for texts. -/
structure Answers (o : Oracle) (access : String → Bool) (next : String → List String) : Prop where
  permits : ∀ q : String, o.permits q = .ok (access q)
  roles : ∀ q : String, o.roles q = .ok ((next q).map .text)

theorem askAccess_outcome (o : Oracle) (id : Identifier) :
    (o.askAccess id).outcome = o.permits id := rfl

theorem askRoles_outcome (o : Oracle) (id : Identifier) :
    (o.askRoles id).outcome = o.roles id := rfl

section

variable (access : String → Bool) (next : String → List String) (source : String)

/-- The names that a search goes on to at the end of a route. -/
def goOn (fresh : List String) (deeper : Bool) (l : List String) : List String :=
  if arrives access source l then []
  else if deeper then (next (l.getLastD source)).filter (· ∈ fresh)
  else []

/-- The names that are fresh after a level that has reached some. -/
def stillFresh (fresh : List String) (ls : List (List String)) : List String :=
  fresh.filter fun r => !ls.any fun l => l.getLastD source == r

/-- The routes of a level with one step more. -/
def continued (fresh : List String) (deeper : Bool) (ls : List (List String)) :
    List (List String) :=
  ls.flatMap fun l => (goOn access next source fresh deeper l).map fun r => l ++ [r]

end

variable {o : Oracle} {access : String → Bool} {next : String → List String} {source : String}

theorem map_step_along (fresh : List String) (l rs : List String) :
    ((rs.map Identifier.text).filter (fresh.map Identifier.text).contains).map
        (Chain.along source l).step =
      ((rs.filter (· ∈ fresh)).map fun r => l ++ [r]).map (Chain.along source) := by
  rw [List.filter_map, List.map_map, List.map_map]
  have hf (r : String) : ((fresh.map Identifier.text).contains ∘ Identifier.text) r =
      decide (r ∈ fresh) := Identifier.contains_map_text fresh r
  rw [List.filter_congr fun r _ => hf r]
  refine List.map_congr_left fun r _ => ?_
  exact (Chain.along_snoc source l r).symm

theorem asked_outcome (h : o.Answers access next) (l : List String) :
    (o.askAccess (Chain.along source l).last).outcome = .ok (arrives access source l) := by
  rw [askAccess_outcome, Chain.along_last, h.permits]
  rfl

/-- A route that arrives takes some of the room. -/
theorem scan_arrived (h : o.Answers access next) {l : List String}
    (ha : arrives access source l = true) (fresh : List Identifier) (deeper : Bool) (room : Nat)
    (rest : List Chain) :
    (o.scan fresh deeper (room + 1) (Chain.along source l :: rest)).outcome =
      (o.scan fresh deeper room rest).outcome >>= fun (arrived, longer) =>
        .ok (Chain.along source l :: arrived, longer) := by
  rw [scan, Traced.outcome_bind, asked_outcome h, ha, ok_bind, if_pos rfl, Traced.outcome_bind]
  rfl

/-- A route that does not arrive goes on. -/
theorem scan_past (h : o.Answers access next) {l : List String}
    (ha : arrives access source l = false) (fresh : List String) (deeper : Bool) (room : Nat)
    (rest : List Chain) :
    (o.scan (fresh.map .text) deeper (room + 1) (Chain.along source l :: rest)).outcome =
      (o.scan (fresh.map .text) deeper (room + 1) rest).outcome >>= fun (arrived, longer) =>
        .ok (arrived, ((goOn access next source fresh deeper l).map fun r => l ++ [r]).map
          (Chain.along source) ++ longer) := by
  rw [scan, Traced.outcome_bind, asked_outcome h, ha, ok_bind, if_neg Bool.false_ne_true]
  unfold goOn
  rw [ha, if_neg Bool.false_ne_true]
  cases deeper with
  | true =>
    simp only [if_true, Traced.outcome_bind, askRoles_outcome, Chain.along_last, h.roles, ok_bind,
      map_step_along]
    rfl
  | false =>
    simp only [Bool.false_eq_true, if_false, Traced.outcome_bind, Traced.outcome_pure, ok_bind]
    rfl

/-- A level gives the routes that arrive, as long as there is room, and the routes one step
longer, unless there was no room left. -/
theorem scan_outcome (h : o.Answers access next) (fresh : List String) (deeper : Bool)
    (room : Nat) (ls : List (List String)) :
    ∃ longer, (o.scan (fresh.map .text) deeper room (ls.map (Chain.along source))).outcome =
        .ok (((ls.filter (arrives access source)).take room).map (Chain.along source), longer) ∧
      ((ls.filter (arrives access source)).length < room →
        longer = (continued access next source fresh deeper ls).map (Chain.along source)) := by
  induction ls generalizing room with
  | nil =>
    cases room with
    | zero => exact ⟨[], rfl, fun hlt => absurd hlt (Nat.not_lt_zero _)⟩
    | succ room => exact ⟨[], rfl, fun _ => rfl⟩
  | cons l rest ih =>
    cases room with
    | zero => exact ⟨[], rfl, fun hlt => absurd hlt (Nat.not_lt_zero _)⟩
    | succ room =>
      rw [List.map_cons]
      unfold continued
      rw [List.flatMap_cons, List.map_append]
      cases ha : arrives access source l with
      | true =>
        obtain ⟨longer, ho, hl⟩ := ih room
        have hgo : goOn access next source fresh deeper l = [] := by
          unfold goOn
          rw [ha, if_pos rfl]
        rw [scan_arrived h ha, ho, List.filter_cons_of_pos ha, hgo]
        refine ⟨longer, rfl, fun hlt => ?_⟩
        rw [List.length_cons] at hlt
        exact hl (by omega)
      | false =>
        obtain ⟨longer, ho, hl⟩ := ih (room + 1)
        rw [scan_past h ha, ho, List.filter_cons_of_neg (by rw [ha]; exact Bool.false_ne_true)]
        refine ⟨_, rfl, fun hlt => ?_⟩
        rw [hl hlt]
        rfl

/-! ## From one level to the next -/

/-- The fresh names among the successors are those that no route of a level reaches, or of one
before it. -/
def Fresh (access : String → Bool) (next : String → List String) (source : String) (n : Nat)
    (fresh : List String) : Prop :=
  ∀ q r, r ∈ next q → (r ∈ fresh ↔ ∀ m, m ≤ n → ¬ Reaches (Steps access next) source m r)

variable {n : Nat} {fresh : List String} {ls : List (List String)}

/-- The continuations of a level are the next level. -/
theorem level_continued (hnext : ∀ q, (next q).Pairwise (· < ·))
    (hl : Level (Steps access next) source n ls) (hf : Fresh access next source n fresh) :
    Level (Steps access next) source (n + 1) (continued access next source fresh true ls) := by
  refine hl.extend _ (fun l _ => ?_) (fun l hm r => ?_)
  · unfold goOn
    split
    · exact .nil
    · exact (hnext _).filter _
  · obtain ⟨hroute, hlen⟩ := (hl.mem_iff l).1 hm
    unfold goOn arrives Steps
    cases ha : access (l.getLastD source) with
    | true => simp
    | false =>
      simp only [Bool.false_eq_true, if_false, if_true, List.mem_filter, decide_eq_true_eq,
        true_and]
      refine and_congr_right fun hr => ?_
      rw [hf _ r hr]
      have hreach : Reaches (Steps access next) source (n + 1) r := by
        rw [← hlen]
        exact .next hroute.distance_last.1 ⟨ha, hr⟩
      constructor
      · exact fun h => ⟨hreach, fun m hm => h m (by omega)⟩
      · exact fun h m hm => h.2 m (by omega)

/-- The names that stay fresh. -/
theorem remaining_map (fresh : List String) (ls : List (List String)) :
    remaining (fresh.map .text) (ls.map (Chain.along source)) =
      (stillFresh source fresh ls).map .text := by
  unfold remaining stillFresh
  rw [List.filter_map]
  congr 1
  refine List.filter_congr fun r _ => ?_
  show (!(ls.map (Chain.along source)).any fun c => c.last == Identifier.text r) = _
  rw [List.any_map]
  congr 2
  funext l
  show ((Chain.along source l).last == Identifier.text r) = (l.getLastD source == r)
  rw [Chain.along_last, Identifier.text_beq]
  rfl

/-- A name that is reached by the next level for the first time ends one of its routes. -/
theorem fresh_remaining (hl : Level (Steps access next) source (n + 1) ls)
    (hf : Fresh access next source n fresh) :
    Fresh access next source (n + 1) (stillFresh source fresh ls) := by
  intro q r hr
  unfold stillFresh
  rw [List.mem_filter, Bool.not_eq_true', List.any_eq_false, hf q r hr]
  constructor
  · rintro ⟨hold, hnew⟩ m hm hreach
    rcases Nat.lt_or_eq_of_le hm with hlt | rfl
    · exact hold m (by omega) hreach
    · have hd : Distance (Steps access next) source (n + 1) r :=
        ⟨hreach, fun k hk => hold k (by omega)⟩
      obtain ⟨l, hroute, hlen, hlast⟩ := exists_route hd
      exact hnew l ((hl.mem_iff l).2 ⟨hroute, hlen⟩) (by rw [hlast]; exact BEq.rfl)
  · intro h
    refine ⟨fun m hm => h m (by omega), fun l hm hlast => ?_⟩
    obtain ⟨hroute, hlen⟩ := (hl.mem_iff l).1 hm
    have hd := hroute.distance_last
    rw [hlen, eq_of_beq hlast] at hd
    exact h (n + 1) (Nat.le_refl _) hd.1

/-- A level that is not empty makes some name no longer fresh. -/
theorem length_remaining_lt {deeper : Bool}
    (hne : continued access next source fresh deeper ls ≠ []) :
    (stillFresh source fresh (continued access next source fresh deeper ls)).length <
      fresh.length := by
  obtain ⟨k, hk⟩ := List.exists_mem_of_ne_nil _ hne
  obtain ⟨l, hl, hm⟩ := List.mem_flatMap.1 hk
  obtain ⟨r, hr, rfl⟩ := List.mem_map.1 hm
  have hfresh : r ∈ fresh := by
    unfold goOn at hr
    split at hr
    · exact absurd hr List.not_mem_nil
    · split at hr
      · exact of_decide_eq_true (List.mem_filter.1 hr).2
      · exact absurd hr List.not_mem_nil
  refine List.length_filter_lt_length_iff_exists.2 ⟨r, hfresh, ?_⟩
  rw [Bool.not_eq_true', Bool.not_eq_false, List.any_eq_true]
  exact ⟨l ++ [r], hk, by rw [List.getLastD_concat]; exact BEq.rfl⟩

theorem continued_false (fresh : List String) (ls : List (List String)) :
    continued access next source fresh false ls = [] := by
  unfold continued goOn
  rw [List.flatMap_eq_nil_iff]
  intro l _
  split <;> rfl

/-! ## The search -/

/-- One round of the search: it ends when there is no room left or nothing to go on with. -/
theorem search_step (h : o.Answers access next) (maxHops : Int) (fresh : List String)
    (n room : Nat) (ls : List (List String)) :
    let arrived := ls.filter (arrives access source)
    let longer := continued access next source fresh (decide (((n + 1 : Nat) : Int) < maxHops)) ls
    (o.search maxHops (fresh.map .text) (n + 1) room (ls.map (Chain.along source))).outcome =
      if room ≤ arrived.length then .ok ((arrived.take room).map (Chain.along source))
      else if longer = [] then .ok (arrived.map (Chain.along source))
      else (o.search maxHops ((stillFresh source fresh longer).map .text) (n + 1 + 1)
        (room - arrived.length) (longer.map (Chain.along source))).outcome.map
          (arrived.map (Chain.along source) ++ ·) := by
  intro arrived longer
  have hlt : longer ≠ [] → (stillFresh source fresh longer).length < fresh.length :=
    length_remaining_lt
  obtain ⟨chains, hscan, hlonger⟩ : ∃ chains, (o.scan (fresh.map .text) (decide
      (((n + 1 : Nat) : Int) < maxHops)) room (ls.map (Chain.along source))).outcome =
        .ok ((arrived.take room).map (Chain.along source), chains) ∧
      (arrived.length < room → chains = longer.map (Chain.along source)) :=
    scan_outcome h fresh _ room ls
  clear_value arrived longer
  rw [search, Traced.outcome_bind, hscan, ok_bind]
  simp only [List.length_map, List.length_take]
  by_cases hroom : room ≤ arrived.length
  · rw [if_pos (by omega), if_pos hroom]
    rfl
  · have hall : arrived.take room = arrived := List.take_of_length_le (by omega)
    have hmin : min room arrived.length = arrived.length := Nat.min_eq_right (by omega)
    rw [if_neg (by omega), if_neg hroom, hall, hmin, hlonger (by omega), remaining_map]
    by_cases hne : longer = []
    · rw [if_pos hne, dif_neg]
      · rfl
      · show ¬ ((stillFresh source fresh longer).map Identifier.text).length < _
        rw [hne]
        simp [stillFresh]
    · rw [if_neg hne, dif_pos (by rw [List.length_map]; exact hlt hne), Traced.outcome_bind]
      show (o.search maxHops ((stillFresh source fresh longer).map .text) (n + 1 + 1)
        (room - arrived.length) (longer.map (Chain.along source))).outcome >>= _ = _
      cases (o.search maxHops ((stillFresh source fresh longer).map .text) (n + 1 + 1)
        (room - arrived.length) (longer.map (Chain.along source))).outcome <;> rfl

/-- **The search finds the first routes.**  From a level on it finds as many of the routes that
arrive as there is room for, in their order. -/
theorem search_outcome (h : o.Answers access next) (hnext : ∀ q, (next q).Pairwise (· < ·))
    {maxHops : Int} (room : Nat) (hl : Level (Steps access next) source n ls)
    (hf : Fresh access next source n fresh) (hn : (n : Int) + 1 ≤ maxHops) :
    ∃ found, Arrivals access next source maxHops n found ∧
      (o.search maxHops (fresh.map .text) (n + 1) room (ls.map (Chain.along source))).outcome =
        .ok ((found.take room).map (Chain.along source)) := by
  induction hk : fresh.length using Nat.strongRecOn generalizing n fresh room ls with
  | ind k ih =>
    rw [search_step h]
    by_cases hroom : room ≤ (ls.filter (arrives access source)).length
    · -- the room is taken by this level, and what else arrives is not looked for
      obtain ⟨more, hmore⟩ := exists_arrivals hnext source maxHops (n + 1)
      refine ⟨_, hl.arrivals hn hmore, ?_⟩
      rw [if_pos hroom, List.take_append_of_le_length hroom]
    · rw [if_neg hroom]
      have hall : (ls.filter (arrives access source)).take room =
          ls.filter (arrives access source) := List.take_of_length_le (by omega)
      by_cases hd : ((n + 1 : Nat) : Int) < maxHops
      · rw [decide_eq_true hd]
        have hlevel := level_continued hnext hl hf
        by_cases hne : continued access next source fresh true ls = []
        · have hnone : Arrivals access next source maxHops (n + 1) [] := by
            refine arrivals_nil fun l hroute hlen _ => ?_
            have hmem := (hlevel.mem_iff l).2 ⟨hroute, hlen⟩
            rw [hne] at hmem
            exact absurd hmem List.not_mem_nil
          refine ⟨_, hl.arrivals hn hnone, ?_⟩
          rw [if_pos hne, List.append_nil, hall]
        · have hlt := length_remaining_lt hne
          obtain ⟨found, hfound, ho⟩ := ih _ (by omega)
            (room - (ls.filter (arrives access source)).length) hlevel
            (fresh_remaining hlevel hf) (by omega) rfl
          refine ⟨_, hl.arrivals hn hfound, ?_⟩
          rw [if_neg hne, ho, List.take_append, hall, List.map_append]
          rfl
      · -- a longer route has too many hops
        have hnone : Arrivals access next source maxHops (n + 1) [] :=
          arrivals_nil fun l _ _ hhops => by omega
        refine ⟨_, hl.arrivals hn hnone, ?_⟩
        rw [decide_eq_false hd, if_pos (continued_false fresh ls), List.append_nil, hall]

end Oracle

/-! ## Paths -/

/-- The path along a route: an assumption of a role for each step, then the access. -/
def Path.ofRoute (source target action : String) (cs : List String) : Path where
  source := source
  target := target
  action := action
  hops := (cs.zip cs.tail).map (fun (q, r) => ⟨.str q, .str r, assumeRole, true⟩) ++
    [⟨.str (cs.getLastD source), .str target, action, false⟩]

theorem Path.ofChain_along (source target action : String) (l : List String) :
    Path.ofChain source target action (Chain.along source l) =
      Path.ofRoute source target action (source :: l) := by
  unfold ofChain ofRoute
  congr 1
  rw [Chain.along_members]
  induction l generalizing source with
  | nil => rfl
  | cons a rest ih =>
    rw [List.map_cons, List.map_cons, hopsOf, ← List.map_cons, ih]
    rfl

/-- From a new viewpoint the trust of the graph is seen. -/
theorem Viewpoint.trustOn_ofContext (c : Context) (g : Graph) :
    (ofContext c).trustOn g = TrustGraph.ofGraph g := rfl

namespace Graph

/-- A name without access to the target can step into a role. -/
def StepsTo (g : Graph) (x : Setting) (q r : String) : Prop :=
  (g.permits x.evaluator x.request (.str q)).outcome = .ok false ∧
    ∃ roles, (g.rolesFor x.evaluator (TrustGraph.ofGraph g) x.context q).outcome = .ok roles ∧
      .text r ∈ roles

theorem enterable_texts {t : TrustGraph} {ts : List String} (ht : t.roles = ts.map .text)
    (source : String) : enterable (.ok t) source =
      (ts.eraseDups.filter fun r => !(r == source)).map Identifier.text := by
  show t.roles.eraseDups.filter (fun r => !(r == Identifier.text source)) = _
  rw [ht, Identifier.eraseDups_map_text, List.filter_map]
  congr 1
  refine List.filter_congr fun r _ => ?_
  show (!(Identifier.text r == .text source)) = !(r == source)
  rw [Identifier.text_beq]
  rfl

/-- At the start all roles but the source are fresh. -/
theorem fresh_start {access : String → Bool} {next : String → List String} {ts : List String}
    (hnext : ∀ q r, r ∈ next q → r ∈ ts) (source : String) :
    Oracle.Fresh access next source 0 (ts.eraseDups.filter fun r => !(r == source)) := by
  intro q r hr
  rw [List.mem_filter, List.mem_eraseDups]
  constructor
  · rintro ⟨-, hne⟩ m hm hreach
    obtain rfl : m = 0 := by omega
    cases hreach
    simp at hne
  · intro h
    refine ⟨hnext q r hr, ?_⟩
    by_contra hne
    have he : r = source := by simpa using hne
    exact h 0 (Nat.le_refl 0) (he ▸ .here)

theorem paths_explored {g : Graph} {ev : Evaluator} {v : Viewpoint} {source target : Identifier}
    {action : String} {b : Bounds} (hs : (g.principal? source).isSome = true)
    (ht : (g.resource? target).isSome = true) :
    (g.paths ev v source target action b).2.outcome =
      ((g.explore ev v source target action b).1.outcome.map
        (·.map (Path.ofChain source target action))).mapError .fault := by
  obtain ⟨P, hP⟩ := Option.isSome_iff_exists.1 hs
  obtain ⟨R, hR⟩ := Option.isSome_iff_exists.1 ht
  unfold paths knownPrincipal knownResource
  rw [hP, hR]
  generalize g.explore ev v source target action b = explored
  obtain ⟨⟨outcome, trace⟩, log⟩ := explored
  cases outcome <;> rfl

theorem paths_outcome {g : Graph} {ev : Evaluator} {v : Viewpoint} {source target : Identifier}
    {action : String} {b : Bounds} {P : Principal} {R : Resource} {chains : List Chain}
    (hs : g.principal? source = some P) (ht : g.resource? target = some R)
    (ho : (g.explore ev v source target action b).1.outcome = .ok chains) :
    (g.paths ev v source target action b).2.outcome =
      .ok (chains.map (Path.ofChain source target action)) := by
  rw [paths_explored (Option.isSome_of_eq_some hs) (Option.isSome_of_eq_some ht), ho]
  rfl

/-- What a search in the graph asks for the ways to a target. -/
def oracle (g : Graph) (ev : Evaluator) (v : Viewpoint) (target : Identifier) (action : String) :
    Oracle where
  permits id := (g.accessOf ev ⟨action, target.value, v.context⟩ id).outcome
  roles id := (g.rolesFor ev (v.trustOn g) v.context id).outcome

theorem explore_eq (g : Graph) (ev : Evaluator) (v : Viewpoint) (source target : Identifier)
    (action : String) (b : Bounds) :
    (g.explore ev v source target action b).1 =
      (g.oracle ev v target action).search b.maxHops (enterable (v.trustOn g) source) 1
        b.maxPaths.toNat [.single source] := rfl

/-- Who has access, and the roles that each can step into, as the graph answers for texts. -/
structure Known (g : Graph) (x : Setting) (access : String → Bool) (next : String → List String)
    (ts : List String) : Prop where
  permits : ∀ q, (g.permits x.evaluator x.request (.str q)).outcome = .ok (access q)
  roles : ∀ q : String, (g.rolesFor x.evaluator (TrustGraph.ofGraph g) x.context q).outcome =
    .ok ((next q).map .text)
  sorted : ∀ q, (next q).Pairwise (· < ·)
  entered : ∀ q r, r ∈ next q ↔ r ≠ q ∧ g.MayEnter x.evaluator x.context q r
  trusted : ∀ q r, r ∈ next q → r ∈ ts
  enterable : ∀ source : String, enterable (TrustGraph.ofGraph g) source =
    (ts.eraseDups.filter fun r => !(r == source)).map Identifier.text

theorem exists_known {g : Graph} (hg : g.Textual) (x : Setting) :
    ∃ access next ts, g.Known x access next ts := by
  obtain ⟨t, hread, ht, hroles⟩ := rolesFor_textual hg
  obtain ⟨ts, hts⟩ := Identifier.map_text ht.texts
  have hdecided (q : String) :
      ∃ b, (g.permits x.evaluator x.request (.str q)).outcome = .ok b := by
    rcases permits_splits hg x q with ⟨-, ho⟩ | ⟨-, ho⟩
    · exact ⟨true, ho⟩
    · exact ⟨false, ho⟩
  obtain ⟨access, haccess⟩ := Classical.skolem.1 hdecided
  obtain ⟨next, hnext⟩ := Classical.skolem.1 (hroles x.evaluator x.context)
  refine ⟨access, next, ts, haccess, fun q => ?_, fun q => (hnext q).2.1, fun q => (hnext q).2.2,
    fun q r hr => ?_, fun source => ?_⟩
  · rw [hread]
    exact (hnext q).1
  · obtain ⟨-, ⟨-, hrole⟩, htrust⟩ := ((hnext q).2.2 r).1 hr
    obtain ⟨trustor, htrustor⟩ : ∃ trustor, trustor ∈ g.trustors r := by
      rcases htrust with hq | hq | ⟨account, -, -, hq, -⟩
      · exact ⟨_, hq⟩
      · exact ⟨_, hq⟩
      · exact ⟨_, hq⟩
    have hmem := ht.mem_roles ⟨hrole, htrustor⟩
    rw [hts] at hmem
    exact (Identifier.mem_map_text ts r).1 hmem
  · rw [hread]
    exact enterable_texts hts source

namespace Known

variable {g : Graph} {x : Setting} {access : String → Bool} {next : String → List String}
  {ts : List String}

theorem stepsTo (h : g.Known x access next ts) : g.StepsTo x = Steps access next := by
  funext q r
  unfold StepsTo Steps
  rw [h.permits, h.roles, Except.ok.injEq]
  refine propext (and_congr_right fun _ => ?_)
  rw [← Identifier.mem_map_text (next q) r]
  constructor
  · rintro ⟨roles, ho, hr⟩
    exact Except.ok.inj ho ▸ hr
  · exact fun hr => ⟨_, rfl, hr⟩

theorem answers (h : g.Known x access next ts) :
    (g.oracle x.evaluator (.ofContext x.context) x.target x.action).Answers access next :=
  ⟨h.permits, h.roles⟩

/-- What exploring the graph finds. -/
theorem explore_outcome (h : g.Known x access next ts) (source : String) {b : Bounds}
    (hb : 1 ≤ b.maxHops) :
    ∃ found, Arrivals access next source b.maxHops 0 found ∧
      (g.explore x.evaluator (.ofContext x.context) source x.target x.action b).1.outcome =
        .ok ((found.take b.maxPaths.toNat).map (Chain.along source)) := by
  have hhops : ((0 : Nat) : Int) + 1 ≤ b.maxHops := by omega
  obtain ⟨found, hfound, ho⟩ := Oracle.search_outcome h.answers h.sorted b.maxPaths.toNat level_zero
    (fresh_start h.trusted source) hhops
  refine ⟨found, hfound, ?_⟩
  rw [explore_eq, Viewpoint.trustOn_ofContext, h.enterable]
  exact ho

end Known

/-- **The paths that are found.**  The routes within the hops that end with access can be listed,
shorter ones first and those of equal length by their names; there is one such list.  The paths
are those along the first of these routes. -/
theorem paths_routes {g : Graph} (hg : g.Textual) (x : Setting) {source : String} {P : Principal}
    {R : Resource} (hs : g.principal? source = some P) (ht : g.resource? x.target = some R)
    (b : Bounds) (hb : 1 ≤ b.maxHops) :
    ∃ routes : List (List String), routes.Pairwise (List.Shortlex (· < ·)) ∧
      (∀ cs, cs ∈ routes ↔ IsRoute (g.StepsTo x) source cs ∧ (cs.length : Int) ≤ b.maxHops ∧
        (g.permits x.evaluator x.request (.str (cs.getLastD source))).outcome = .ok true) ∧
      (g.paths x.evaluator (.ofContext x.context) source x.target x.action b).2.outcome =
        .ok ((routes.take b.maxPaths.toNat).map (Path.ofRoute source x.target x.action)) := by
  obtain ⟨access, next, ts, h⟩ := exists_known hg x
  obtain ⟨found, hfound, hexplore⟩ := h.explore_outcome source hb
  obtain ⟨hsorted, hmem⟩ := hfound.routes
  refine ⟨found.map (source :: ·), hsorted, fun cs => ?_, ?_⟩
  · rw [h.stepsTo, h.permits, Except.ok.injEq]
    exact hmem cs
  · rw [paths_outcome hs ht hexplore, ← List.map_take, List.map_map, List.map_map]
    congr 1
    exact List.map_congr_left fun l _ => Path.ofChain_along source x.target x.action l

/-- A role without policies. -/
def role : Principal := { member with arn := .str "role", kind := .role, groups := [] }

/-- A role that may do anything, and a member that may step into it. -/
def memberOfRole : Graph :=
  let g := { empty with principals := (empty.principals.insert "member" member).insert "role" role }
  let g := g.insertEdge "role" "*" false ⟨.str "*", .null, ""⟩
  let file : Resource := ⟨.str "file", .other, "", "", "", none⟩
  { g with resources := g.resources.insert "file" file, trust := g.trust.push "role" "member" }

theorem memberOfRole_textual : memberOfRole.Textual := by
  have hm := (textual_empty []).insertPrincipal "member" ⟨"member", rfl⟩ member_groups
  have hr := hm.insertPrincipal (p := role) "role" ⟨"role", rfl⟩
    fun q hq => absurd hq List.not_mem_nil
  have he := hr.insertEdge "role" "*" false (e := ⟨.str "*", .null, ""⟩) ⟨"*", rfl⟩
  exact he.congr rfl rfl rfl

/-- The only path of the member to the file leads through the role. -/
theorem paths_routes_memberOfRole :
    let x : Setting := ⟨fun _ _ => .ok true, .empty, "read", "file"⟩
    memberOfRole.Textual ∧ (memberOfRole.principal? "member").isSome = true ∧
      (memberOfRole.resource? "file").isSome = true ∧
      ∃ routes : List (List String), routes.Pairwise (List.Shortlex (· < ·)) ∧
        (∀ cs, cs ∈ routes ↔ IsRoute (memberOfRole.StepsTo x) "member" cs ∧ (cs.length : Int) ≤ 5 ∧
          (memberOfRole.permits x.evaluator x.request (.str (cs.getLastD "member"))).outcome =
            .ok true) ∧
        (routes.take 10).map (Path.ofRoute "member" "file" "read") =
          [Path.ofRoute "member" "file" "read" ["member", "role"]] := by
  intro x
  refine ⟨memberOfRole_textual, rfl, rfl, ?_⟩
  have hs : memberOfRole.principal? "member" = some member := rfl
  obtain ⟨routes, hsorted, hmem, ho⟩ :=
    paths_routes memberOfRole_textual x hs rfl ⟨5, 10⟩ (by decide)
  have hrun : (memberOfRole.paths x.evaluator (.ofContext x.context) "member" "file" "read"
      ⟨5, 10⟩).2.outcome = .ok [Path.ofRoute "member" "file" "read" ["member", "role"]] := by
    cbv
  exact ⟨routes, hsorted, hmem, Except.ok.inj (ho.symm.trans hrun)⟩

end Graph
end CloudAccess
