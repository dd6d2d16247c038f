import CloudAccess.Proofs.OrderedMap
import CloudAccess.Proofs.Reach.Search
import Mathlib

/-!
# The rounds of a search

The search is a loop over levels of chains.  Told plainly it knows of no end: it goes on as long as
the level has chains and there is room for what arrives, and a table says at which depth each name
was first reached (`Oracle.Loops`).  On every graph the loop ends all the same, with the answer of
the search, and after at most one round more than there are roles:

    Loops o b (.start source) m r ↔ m = n ∧ r = answer,  where n ≤ 1 + the number of roles
                                                                             (Graph.paths_rounds)

Neither the bounds nor the trust matter: roles may trust each other, themselves or everyone, and no
identifier need be a text.

* `Oracle.pass_follows`: one round of the loop finds what one round of the search finds.
* `Oracle.Fits`: the table knows exactly the names that are no longer fresh; a level that has chains
  reaches a fresh one.
-/

namespace CloudAccess

open Condition (Evaluator)
open CloudAccess.Graph (Bounds)

/-! ## The loop -/

/-- What the loop holds between two rounds: the chains of the level, the depth at which each name
was first reached, and the chains that have arrived. -/
structure Frontier where
  level : List Chain
  depths : OrderedMap Identifier Nat
  arrived : List Chain

namespace Frontier

def start (source : Identifier) : Frontier :=
  ⟨[.single source], OrderedMap.empty.insert source 0, []⟩

/-- Lets a chain go on to a role, unless the role is on the chain or was reached at a lesser
depth. -/
def enter (c : Chain) (s : Frontier) (role : Identifier) : Frontier :=
  if c.members.contains role then s
  else
    match s.depths.get? role with
    | some d =>
      if d < c.members.length then s else { s with level := s.level ++ [c.step role] }
    | none =>
      { s with
        level := s.level ++ [c.step role]
        depths := s.depths.insert role c.members.length }

/-- The loop goes on. -/
def Open (b : Bounds) (s : Frontier) : Prop :=
  s.level ≠ [] ∧ (s.arrived.length : Int) < b.maxPaths

end Frontier

namespace Oracle

/-- Goes through the chains of a level, and collects those of the next one. -/
def pass (o : Oracle) (b : Bounds) : List Chain → Frontier → Search Frontier
  | [], s => pure s
  | c :: rest, s => do
    if ← o.askAccess c.last then
      let s := { s with arrived := s.arrived ++ [c] }
      if b.maxPaths ≤ s.arrived.length then return s
      pass o b rest s
    else if b.maxHops ≤ c.members.length then pass o b rest s
    else
      let roles ← o.askRoles c.last
      pass o b rest (roles.foldl (Frontier.enter c) s)

/-- One round of the loop. -/
def round (o : Oracle) (b : Bounds) (s : Frontier) : Search Frontier :=
  o.pass b s.level { s with level := [] }

/-- The loop goes through some number of rounds, and ends with what has arrived or in a fault. -/
inductive Loops (o : Oracle) (b : Bounds) : Frontier → Nat → Except Fault (List Chain) → Prop
  | ended {s : Frontier} : ¬ s.Open b → Loops o b s 0 (.ok s.arrived)
  | failed {s : Frontier} {f : Fault} :
    s.Open b → (o.round b s).outcome = .error f → Loops o b s 1 (.error f)
  | again {s s' : Frontier} {n : Nat} {r : Except Fault (List Chain)} :
    s.Open b → (o.round b s).outcome = .ok s' → Loops o b s' n r → Loops o b s (n + 1) r

/-- There is one way for the loop to go. -/
theorem Loops.unique {o : Oracle} {b : Bounds} {s : Frontier} {n m : Nat}
    {r r' : Except Fault (List Chain)} (h : Loops o b s n r) (h' : Loops o b s m r') :
    m = n ∧ r' = r := by
  induction h generalizing m r' with
  | ended hend =>
    cases h' with
    | ended => exact ⟨rfl, rfl⟩
    | failed hopen => exact absurd hopen hend
    | again hopen => exact absurd hopen hend
  | failed hopen hround =>
    cases h' with
    | ended hend => exact absurd hopen hend
    | failed _ hround' =>
      rw [hround] at hround'
      obtain rfl := Except.error.inj hround'
      exact ⟨rfl, rfl⟩
    | again _ hround' =>
      rw [hround] at hround'
      cases hround'
  | again hopen hround _ ih =>
    cases h' with
    | ended hend => exact absurd hopen hend
    | failed _ hround' =>
      rw [hround] at hround'
      cases hround'
    | again _ hround' hrest =>
      rw [hround] at hround'
      obtain rfl := Except.ok.inj hround'
      obtain ⟨rfl, rfl⟩ := ih hrest
      exact ⟨rfl, rfl⟩

/-! ## Entering roles -/

/-- Some chain has gone on to a name. -/
def reached (level : List Chain) (i : Identifier) : Bool := level.any fun c => c.last == i

/-- What the table of depths says in a round that enters names at some depth: those of the table
before it, and those entered since. -/
def Tells (before : OrderedMap Identifier Nat) (depth : Nat) (s : Frontier) : Prop :=
  ∀ i, s.depths.get? i = (before.get? i).or (if reached s.level i then some depth else none)

theorem reached_append (level next : List Chain) (i : Identifier) :
    reached (level ++ next) i = (reached level i || reached next i) := List.any_append

theorem reached_step (level : List Chain) (c : Chain) (role i : Identifier) :
    reached (level ++ [c.step role]) i = (reached level i || role == i) := by
  rw [reached_append]
  exact congrArg (reached level i || ·) (Bool.or_false _)

theorem reached_congr (level : List Chain) {i j : Identifier} (h : (i == j) = true) :
    reached level i = reached level j :=
  List.any_congr rfl fun _ => Bool.eq_iff_iff.2 ⟨fun hi => BEq.trans hi h,
    fun hj => BEq.trans hj (BEq.symm h)⟩

section Entering

variable {before : OrderedMap Identifier Nat} {depth : Nat} {c : Chain} {s : Frontier}
  (hlength : c.members.length = depth)

include hlength

theorem enter_known (hs : Tells before depth s) {role : Identifier} {d : Nat}
    (hrole : before.get? role = some d) (hd : d < depth) : s.enter c role = s := by
  unfold Frontier.enter
  split
  · rfl
  · rw [hs role, hrole, Option.some_or]
    dsimp only
    rw [if_pos (hlength ▸ hd)]

variable (hmembers : ∀ i ∈ c.members, (before.get? i).isSome = true)

include hmembers

theorem enter_new (hs : Tells before depth s) {role : Identifier}
    (hrole : before.get? role = none) :
    (s.enter c role).level = s.level ++ [c.step role] ∧
      (s.enter c role).arrived = s.arrived ∧ Tells before depth (s.enter c role) := by
  have hoff : ¬ c.members.contains role = true := by
    rw [List.contains_eq_any_beq, List.any_eq_true]
    rintro ⟨i, hi, he⟩
    have hsome := hmembers i hi
    rw [← OrderedMap.get?_congr before he, hrole] at hsome
    cases hsome
  have hnow := hs role
  rw [hrole, Option.none_or] at hnow
  unfold Frontier.enter
  rw [if_neg hoff]
  cases hreached : reached s.level role with
  | true =>
    -- another chain of the round has gone on to the same role
    rw [hreached, if_pos rfl] at hnow
    rw [hnow]
    dsimp only
    rw [hlength, if_neg (Nat.lt_irrefl _)]
    refine ⟨rfl, rfl, fun i => ?_⟩
    show s.depths.get? i = _
    rw [hs i, reached_step]
    cases hi : role == i with
    | true => rw [← reached_congr s.level hi, hreached, Bool.true_or]
    | false => rw [Bool.or_false]
  | false =>
    rw [hreached, if_neg Bool.false_ne_true] at hnow
    rw [hnow]
    dsimp only
    refine ⟨rfl, rfl, fun i => ?_⟩
    show (s.depths.alter role fun _ => c.members.length).get? i = _
    rw [OrderedMap.get?_alter, hs i, reached_step, hlength]
    cases hi : role == i with
    | true => rw [if_pos rfl, ← OrderedMap.get?_congr before hi, hrole, Bool.or_true, if_pos rfl,
        Option.none_or]
    | false => rw [if_neg Bool.false_ne_true, Bool.or_false]

/-- A chain goes on to the roles that were not reached before the round. -/
theorem foldl_enter (hbefore : ∀ i d, before.get? i = some d → d < depth) (roles : List Identifier)
    (hs : Tells before depth s) :
    let s' := roles.foldl (Frontier.enter c) s
    s'.level = s.level ++ (roles.filter fun r => (before.get? r).isNone).map c.step ∧
      s'.arrived = s.arrived ∧ Tells before depth s' := by
  induction roles generalizing s with
  | nil => exact ⟨(List.append_nil _).symm, rfl, hs⟩
  | cons role rest ih =>
    rw [List.foldl_cons]
    cases hrole : before.get? role with
    | some d =>
      rw [enter_known hlength hs hrole (hbefore role d hrole),
        List.filter_cons_of_neg (by rw [hrole]; exact Bool.false_ne_true)]
      exact ih hs
    | none =>
      obtain ⟨hlevel, harrived, htells⟩ := enter_new hlength hmembers hs hrole
      obtain ⟨hlevel', harrived', htells'⟩ := ih htells
      refine ⟨?_, harrived'.trans harrived, htells'⟩
      rw [hlevel', hlevel, List.filter_cons_of_pos (by rw [hrole]; rfl), List.map_cons,
        List.append_assoc, List.singleton_append]

end Entering

/-! ## One round -/

section Round

variable {o : Oracle} {fresh : List Identifier} {deeper : Bool} {room : Nat} {cs : List Chain}
  {arrived next : List Chain}

theorem scan_cons (o : Oracle) (fresh : List Identifier) (deeper : Bool) (room : Nat) (c : Chain)
    (rest : List Chain) :
    (o.scan fresh deeper (room + 1) (c :: rest)).outcome = o.permits c.last >>= fun ok =>
      if ok then (o.scan fresh deeper room rest).outcome.map fun (arrived, next) =>
        (c :: arrived, next)
      else (if deeper then o.roles c.last else .ok []) >>= fun roles =>
        (o.scan fresh deeper (room + 1) rest).outcome.map fun (arrived, next) =>
          (arrived, (roles.filter fresh.contains).map c.step ++ next) := by
  rw [scan, Traced.outcome_bind, askAccess_outcome]
  congr 1
  funext ok
  cases ok with
  | true =>
    rw [if_pos rfl, if_pos rfl, Traced.outcome_bind]
    cases (o.scan fresh deeper room rest).outcome <;> rfl
  | false =>
    rw [if_neg Bool.false_ne_true, if_neg Bool.false_ne_true]
    cases deeper with
    | true =>
      simp only [if_true, Traced.outcome_bind, askRoles_outcome]
      cases (o.scan fresh true (room + 1) rest).outcome <;> rfl
    | false =>
      simp only [Bool.false_eq_true, if_false, Traced.outcome_bind, Traced.outcome_pure, ok_bind]
      cases (o.scan fresh false (room + 1) rest).outcome <;> rfl

/-- What a round of the search finds is no more than there is room for, and goes on from its level
to fresh roles. -/
theorem of_scan (h : (o.scan fresh deeper room cs).outcome = .ok (arrived, next)) :
    arrived.length ≤ room ∧ ∀ k ∈ next, ∃ c ∈ cs, ∃ roles, o.roles c.last = .ok roles ∧
      ∃ role ∈ roles, fresh.contains role = true ∧ k = c.step role := by
  induction cs generalizing room arrived next with
  | nil =>
    obtain ⟨rfl, rfl⟩ : [] = arrived ∧ [] = next := by
      cases room <;> exact Prod.mk.inj (Except.ok.inj h)
    exact ⟨Nat.zero_le _, nofun⟩
  | cons c rest ih =>
    cases room with
    | zero =>
      obtain ⟨rfl, rfl⟩ := Prod.mk.inj (Except.ok.inj h)
      exact ⟨Nat.zero_le _, nofun⟩
    | succ room =>
      have hrest {next : List Chain} (hnext : ∀ k ∈ next, ∃ c ∈ rest, ∃ roles,
          o.roles c.last = .ok roles ∧ ∃ role ∈ roles, fresh.contains role = true ∧
            k = c.step role) : ∀ k ∈ next, ∃ c' ∈ c :: rest, ∃ roles,
          o.roles c'.last = .ok roles ∧ ∃ role ∈ roles, fresh.contains role = true ∧
            k = c'.step role := fun k hk => by
        obtain ⟨c', hc', hroles⟩ := hnext k hk
        exact ⟨c', List.mem_cons_of_mem c hc', hroles⟩
      rw [scan_cons] at h
      obtain ⟨ok, -, h⟩ := bind_eq_ok h
      cases ok with
      | true =>
        obtain ⟨⟨arrived', next'⟩, hscan, h⟩ := map_eq_ok h
        obtain ⟨rfl, rfl⟩ := Prod.mk.inj h
        obtain ⟨hlength, hnext⟩ := ih hscan
        exact ⟨Nat.succ_le_succ hlength, hrest hnext⟩
      | false =>
        obtain ⟨roles, hroles, h⟩ := bind_eq_ok h
        obtain ⟨⟨arrived', next'⟩, hscan, h⟩ := map_eq_ok h
        obtain ⟨rfl, rfl⟩ := Prod.mk.inj h
        obtain ⟨hlength, hnext⟩ := ih hscan
        refine ⟨hlength, fun k hk => ?_⟩
        rcases List.mem_append.1 hk with hk | hk
        · obtain ⟨role, hrole, rfl⟩ := List.mem_map.1 hk
          obtain ⟨hrole, hfresh⟩ := List.mem_filter.1 hrole
          cases deeper with
          | true => exact ⟨c, List.mem_cons_self, roles, hroles, role, hrole, hfresh, rfl⟩
          | false =>
            obtain rfl := Except.ok.inj hroles
            exact absurd hrole List.not_mem_nil
        · exact hrest hnext k hk

theorem pass_cons (o : Oracle) (b : Bounds) (c : Chain) (rest : List Chain) (s : Frontier) :
    (o.pass b (c :: rest) s).outcome = o.permits c.last >>= fun ok =>
      if ok then
        if b.maxPaths ≤ ((s.arrived ++ [c]).length : Int) then
          .ok { s with arrived := s.arrived ++ [c] }
        else (o.pass b rest { s with arrived := s.arrived ++ [c] }).outcome
      else if b.maxHops ≤ c.members.length then (o.pass b rest s).outcome
      else o.roles c.last >>= fun roles =>
        (o.pass b rest (roles.foldl (Frontier.enter c) s)).outcome := by
  rw [pass, Traced.outcome_bind, askAccess_outcome]
  congr 1
  funext ok
  cases ok with
  | true =>
    rw [if_pos rfl, if_pos rfl]
    dsimp only
    split <;> rfl
  | false =>
    rw [if_neg Bool.false_ne_true, if_neg Bool.false_ne_true]
    split
    · rfl
    · rw [Traced.outcome_bind, askRoles_outcome]

/-- What the search knows of the table between two rounds: all chains of the level have the same
number of names, and these are in the table; its depths are lesser than that number; and the roles
that it does not know are the fresh ones. -/
structure Fits (o : Oracle) (names : Nat) (fresh : List Identifier) (level : List Chain)
    (depths : OrderedMap Identifier Nat) : Prop where
  length : ∀ c ∈ level, c.members.length = names
  members : ∀ c ∈ level, ∀ i ∈ c.members, (depths.get? i).isSome = true
  shallow : ∀ i d, depths.get? i = some d → d < names
  fresh : ∀ q roles, o.roles q = .ok roles →
    ∀ r ∈ roles, fresh.contains r = (depths.get? r).isNone

theorem Fits.tail {names : Nat} {c : Chain} {before : OrderedMap Identifier Nat}
    (h : Fits o names fresh (c :: cs) before) : Fits o names fresh cs before where
  length k hk := h.length k (List.mem_cons_of_mem c hk)
  members k hk := h.members k (List.mem_cons_of_mem c hk)
  shallow := h.shallow
  fresh := h.fresh

/-- A round of the loop ends as one of the search does, and adds what that finds. -/
def Follows (before : OrderedMap Identifier Nat) (names : Nat) (s : Frontier)
    (found : Except Fault (List Chain × List Chain)) (after : Except Fault Frontier) : Prop :=
  (∀ f, found = .error f → after = .error f) ∧
  ∀ arrived next, found = .ok (arrived, next) → ∃ s', after = .ok s' ∧
    s'.level = s.level ++ next ∧ s'.arrived = s.arrived ++ arrived ∧ Tells before names s'

theorem Follows.nothing {before : OrderedMap Identifier Nat} {names : Nat} {s : Frontier}
    (hs : Tells before names s) : Follows before names s (.ok ([], [])) (.ok s) := by
  refine ⟨nofun, fun arrived next h => ⟨s, rfl, ?_⟩⟩
  obtain ⟨rfl, rfl⟩ := Prod.mk.inj (Except.ok.inj h)
  exact ⟨(List.append_nil _).symm, (List.append_nil _).symm, hs⟩

/-- What was found before comes first. -/
theorem Follows.append {before : OrderedMap Identifier Nat} {names : Nat} {s s₁ : Frontier}
    {found : Except Fault (List Chain × List Chain)} {after : Except Fault Frontier}
    (h : Follows before names s₁ found after) (here new : List Chain)
    (harrived : s₁.arrived = s.arrived ++ here) (hlevel : s₁.level = s.level ++ new) :
    Follows before names s (found.map fun (arrived, next) => (here ++ arrived, new ++ next))
      after := by
  refine ⟨fun f hf => h.1 f (map_eq_error hf), fun arrived next hfound => ?_⟩
  obtain ⟨⟨arrived', next'⟩, hfound', he⟩ := map_eq_ok hfound
  obtain ⟨rfl, rfl⟩ := Prod.mk.inj he
  obtain ⟨s', hs', hlevel', harrived', htells⟩ := h.2 _ _ hfound'
  refine ⟨s', hs', ?_, ?_, htells⟩
  · rw [hlevel', hlevel, List.append_assoc]
  · rw [harrived', harrived, List.append_assoc]

/-- One round of the loop finds what one round of the search finds. -/
theorem pass_follows {before : OrderedMap Identifier Nat} {names : Nat} {b : Bounds}
    (hfits : Fits o names fresh cs before) {s : Frontier} (hs : Tells before names s)
    (hroom : (s.arrived.length : Int) + (room + 1 : Nat) = b.maxPaths) :
    Follows before names s (o.scan fresh (names < b.maxHops) (room + 1) cs).outcome
      (o.pass b cs s).outcome := by
  induction cs generalizing room s with
  | nil => exact .nothing hs
  | cons c rest ih =>
    have hlength := hfits.length c List.mem_cons_self
    rw [scan_cons, pass_cons, hlength]
    cases hok : o.permits c.last with
    | error f => exact ⟨fun _ h => congrArg _ (Except.error.inj h), nofun⟩
    | ok ok =>
      rw [ok_bind, ok_bind]
      cases ok with
      | true =>
        rw [if_pos rfl, if_pos rfl, List.length_append, List.length_singleton]
        have hs₁ : Tells before names { s with arrived := s.arrived ++ [c] } := hs
        cases room with
        | zero =>
          -- there is no room for more
          have hfull : (o.scan fresh (names < b.maxHops) 0 rest).outcome = .ok ([], []) := by
            cases rest <;> rfl
          rw [if_pos (by omega), hfull]
          exact (Follows.nothing hs₁).append (s := s) [c] [] rfl (List.append_nil _).symm
        | succ room =>
          rw [if_neg (by omega)]
          have hroom₁ : (({ s with arrived := s.arrived ++ [c] } : Frontier).arrived.length : Int) +
              (room + 1 : Nat) = b.maxPaths := by
            rw [List.length_append, List.length_singleton]
            omega
          exact (ih hfits.tail hs₁ hroom₁).append (s := s) [c] [] rfl (List.append_nil _).symm
      | false =>
        rw [if_neg Bool.false_ne_true, if_neg Bool.false_ne_true]
        by_cases hhops : b.maxHops ≤ names
        · rw [if_pos hhops, decide_eq_false (by omega), if_neg Bool.false_ne_true, ok_bind]
          rw [← decide_eq_false (show ¬ (names : Int) < b.maxHops by omega)]
          exact (ih hfits.tail hs hroom).append [] [] (List.append_nil _).symm
            (List.append_nil _).symm
        · rw [if_neg hhops, if_pos (decide_eq_true (by omega))]
          cases hroles : o.roles c.last with
          | error f => exact ⟨fun _ h => congrArg _ (Except.error.inj h), nofun⟩
          | ok roles =>
            rw [ok_bind, ok_bind]
            obtain ⟨hlevel, harrived, htells⟩ := foldl_enter hlength
              (hfits.members c List.mem_cons_self) hfits.shallow roles hs
            rw [List.filter_congr fun r hr => (hfits.fresh c.last roles hroles r hr).symm] at hlevel
            have hsame := harrived.trans (List.append_nil _).symm
            refine (ih hfits.tail htells ?_).append [] _ hsame hlevel
            rw [harrived]
            exact hroom

/-! ## From one round to the next -/

theorem contains_remaining (fresh : List Identifier) (next : List Chain) (r : Identifier) :
    (remaining fresh next).contains r = (fresh.contains r && !reached next r) := by
  rw [Bool.eq_iff_iff, Bool.and_eq_true, Bool.not_eq_true']
  unfold remaining
  simp only [List.contains_eq_any_beq, List.any_eq_true, List.mem_filter, Bool.not_eq_true']
  constructor
  · rintro ⟨i, ⟨hi, hnew⟩, hri⟩
    exact ⟨⟨i, hi, hri⟩, (reached_congr next hri).trans hnew⟩
  · rintro ⟨⟨i, hi, hri⟩, hnew⟩
    exact ⟨i, ⟨hi, (reached_congr next hri).symm.trans hnew⟩, hri⟩

/-- A chain that goes on to a fresh role leaves fewer of them. -/
theorem length_remaining_of_mem {k : Chain} (hk : k ∈ next)
    (hfresh : fresh.contains k.last = true) : (remaining fresh next).length < fresh.length := by
  rw [List.contains_eq_any_beq, List.any_eq_true] at hfresh
  obtain ⟨i, hi, he⟩ := hfresh
  refine List.length_filter_lt_length_iff_exists.2 ⟨i, hi, ?_⟩
  rw [Bool.not_eq_true', Bool.not_eq_false, List.any_eq_true]
  exact ⟨k, hk, he⟩

/-- A level that has chains left fewer of them. -/
theorem length_remaining_of_scan (h : (o.scan fresh deeper room cs).outcome = .ok (arrived, next))
    (hne : next ≠ []) : (remaining fresh next).length < fresh.length := by
  obtain ⟨k, hk⟩ := List.exists_mem_of_ne_nil next hne
  obtain ⟨c, -, -, -, role, -, hfresh, rfl⟩ := (of_scan h).2 k hk
  exact length_remaining_of_mem hk hfresh

theorem remaining_nil (fresh : List Identifier) : remaining fresh [] = fresh :=
  List.filter_eq_self.2 fun _ _ => rfl

variable {names : Nat} {before : OrderedMap Identifier Nat}

theorem Fits.advance (h : Fits o names fresh cs before) {s : Frontier} (hs : Tells before names s)
    (hscan : (o.scan fresh deeper room cs).outcome = .ok (arrived, s.level)) :
    Fits o (names + 1) (remaining fresh s.level) s.level s.depths where
  length k hk := by
    obtain ⟨c, hc, -, -, role, -, -, rfl⟩ := (of_scan hscan).2 k hk
    rw [Chain.members_step, List.length_append, h.length c hc, List.length_singleton]
  members k hk i hi := by
    obtain ⟨c, hc, -, -, role, -, -, rfl⟩ := (of_scan hscan).2 k hk
    rw [hs i, Option.isSome_or, Bool.or_eq_true]
    rw [Chain.members_step, List.mem_append, List.mem_singleton] at hi
    rcases hi with hi | rfl
    · exact .inl (h.members c hc i hi)
    · have hreached : reached s.level i = true := List.any_eq_true.2 ⟨_, hk, BEq.rfl⟩
      rw [hreached]
      exact .inr rfl
  shallow i d hd := by
    rw [hs i, Option.or_eq_some_iff] at hd
    rcases hd with hd | ⟨-, hd⟩
    · exact Nat.lt_succ_of_lt (h.shallow i d hd)
    · split at hd
      · exact Option.some.inj hd ▸ Nat.lt_succ_self names
      · cases hd
  fresh q roles hroles r hr := by
    rw [contains_remaining, h.fresh q roles hroles r hr, hs r, Option.isNone_or]
    cases reached s.level r <;> rfl

/-! ## The whole loop -/

theorem search_eq (o : Oracle) (maxHops : Int) (fresh : List Identifier) (names room : Nat)
    (level : List Chain) : (o.search maxHops fresh names room level).outcome =
      (o.scan fresh (names < maxHops) room level).outcome >>= fun (arrived, next) =>
        if room - arrived.length = 0 then .ok arrived
        else if (remaining fresh next).length < fresh.length then
          (o.search maxHops (remaining fresh next) (names + 1) (room - arrived.length)
            next).outcome.map (arrived ++ ·)
        else .ok arrived := by
  rw [search, Traced.outcome_bind]
  congr 1
  funext found
  obtain ⟨arrived, next⟩ := found
  dsimp only
  split
  · rfl
  · split
    · rw [Traced.outcome_bind]
      cases (o.search maxHops (remaining fresh next) (names + 1) (room - arrived.length)
        next).outcome <;> rfl
    · rfl

theorem search_nothing (o : Oracle) (maxHops : Int) (fresh : List Identifier) (names : Nat)
    (h : cs = [] ∨ room = 0) : (o.search maxHops fresh names room cs).outcome = .ok [] := by
  have hscan : (o.scan fresh (names < maxHops) room cs).outcome = .ok ([], []) := by
    rcases h with rfl | rfl
    · cases room <;> rfl
    · cases cs <;> rfl
  rw [search_eq, hscan, ok_bind]
  dsimp only
  rw [remaining_nil, if_neg (Nat.lt_irrefl _)]
  split <;> rfl

/-- A round that starts with room for chains ends as one of the search does. -/
theorem round_follows {b : Bounds} {s : Frontier} (h : Fits o names fresh s.level s.depths)
    (hroom : (s.arrived.length : Int) + (room + 1 : Nat) = b.maxPaths) :
    Follows s.depths names { s with level := [] }
      (o.scan fresh (names < b.maxHops) (room + 1) s.level).outcome (o.round b s).outcome := by
  refine pass_follows h (fun i => ?_) hroom
  show s.depths.get? i = (s.depths.get? i).or none
  rw [Option.or_none]

theorem map_append_append (found : Except Fault (List Chain)) (before after : List Chain) :
    (found.map (after ++ ·)).map (before ++ ·) = found.map (before ++ after ++ ·) := by
  cases found with
  | error f => rfl
  | ok more => exact congrArg Except.ok (List.append_assoc before after more).symm

/-- The loop goes through one round more than there are fresh roles at most, and ends with the
answer of the search. -/
theorem loops_search {b : Bounds} {s : Frontier} (h : Fits o names fresh s.level s.depths) :
    ∃ n, n ≤ 1 + fresh.length ∧ Loops o b s n ((o.search b.maxHops fresh names
      (b.maxPaths - s.arrived.length).toNat s.level).outcome.map (s.arrived ++ ·)) := by
  induction hk : fresh.length using Nat.strongRecOn generalizing names fresh s with
  | ind k ih =>
    by_cases hopen : s.Open b
    · obtain ⟨room, hroom⟩ : ∃ room : Nat, (s.arrived.length : Int) + (room + 1 : Nat) =
          b.maxPaths := ⟨(b.maxPaths - s.arrived.length).toNat - 1, by have := hopen.2; omega⟩
      obtain ⟨hfails, hgoes⟩ := round_follows h hroom
      rw [show (b.maxPaths - s.arrived.length).toNat = room + 1 by omega, search_eq]
      cases hscan : (o.scan fresh (names < b.maxHops) (room + 1) s.level).outcome with
      | error f => exact ⟨1, by omega, .failed hopen (hfails f hscan)⟩
      | ok found =>
        obtain ⟨arrived, next⟩ := found
        obtain ⟨s', hs', rfl, harrived, htells⟩ := hgoes arrived next hscan
        change s'.arrived = s.arrived ++ arrived at harrived
        have hleft : (b.maxPaths - s'.arrived.length).toNat = room + 1 - arrived.length := by
          rw [harrived, List.length_append]
          omega
        rw [ok_bind]
        dsimp only
        by_cases hgo : s'.Open b
        · -- the next level enters a fresh role, so that fewer remain
          have hless := length_remaining_of_scan hscan hgo.1
          obtain ⟨n, hn, hloops⟩ := ih _ (by omega) (h.advance htells hscan) rfl
          have hsome : room + 1 - arrived.length ≠ 0 := by
            have := hgo.2
            omega
          rw [if_neg hsome, if_pos hless, map_append_append, ← harrived, ← hleft]
          exact ⟨n + 1, by omega, .again hopen hs' hloops⟩
        · have hend : Loops o b s 1 (.ok s'.arrived) := .again hopen hs' (.ended hgo)
          rw [harrived] at hend
          refine ⟨1, by omega, ?_⟩
          split
          · exact hend
          · have hnil : s'.level = [] := by
              by_contra hne
              exact hgo ⟨hne, by omega⟩
            rw [hnil, remaining_nil, if_neg (Nat.lt_irrefl _)]
            exact hend
    · have hnothing : s.level = [] ∨ (b.maxPaths - s.arrived.length).toNat = 0 := by
        by_contra hne
        rw [not_or] at hne
        exact hopen ⟨hne.1, by omega⟩
      rw [search_nothing o b.maxHops fresh names hnothing]
      refine ⟨0, Nat.zero_le _, ?_⟩
      show Loops o b s 0 (.ok (s.arrived ++ []))
      rw [List.append_nil]
      exact .ended hopen

end Round

end Oracle

/-! ## The roles that a search may enter -/

namespace Graph

/-- The number of principals that are roles. -/
def roleCount (g : Graph) : Nat := g.principals.values.countP (·.kind = .role)

theorem length_enterable {g : Graph} {trust : Except Fault TrustGraph}
    (h : trust = TrustGraph.ofGraph g) (source : Identifier) :
    (enterable trust source).length ≤ g.roleCount := by
  cases ht : trust with
  | error f => exact Nat.zero_le _
  | ok t =>
    let records := g.principals.values.filter (·.kind = .role)
    have hkeys : t.roles.map Identifier.key ⊆ records.filterMap fun P => P.arn.key? := by
      intro k hk
      obtain ⟨role, hrole, rfl⟩ := List.mem_map.1 hk
      obtain ⟨e, he, rfl⟩ := List.mem_map.1 hrole
      rw [h] at ht
      obtain ⟨ess, hess, ht⟩ := bind_eq_ok ht
      obtain rfl := Except.ok.inj ht
      obtain ⟨es, hes, he⟩ := List.mem_flatten.1 he
      obtain ⟨P, hP, hread⟩ := (mem_of_mapM hess es).1 hes
      obtain ⟨hkind, hid⟩ := TrustGraph.of_mem_edgesTo hread he
      have hid' : Identifier.ofJson P.arn = .ok e.2 := by rw [Identifier.ofJson, hid]
      exact List.mem_filterMap.2 ⟨P, List.mem_filter.2 ⟨hP, decide_eq_true hkind⟩,
        Identifier.key_of_ofJson hid'⟩
    have hdistinct : (t.roles.map Identifier.key).eraseDups ⊆
        records.filterMap fun P => P.arn.key? := fun k hk => hkeys (List.mem_eraseDups.1 hk)
    calc (enterable (.ok t) source).length
        ≤ t.roles.eraseDups.length := List.length_filter_le _ _
      _ = (t.roles.map Identifier.key).eraseDups.length := by
          rw [Identifier.eraseDups_keys, List.length_map]
      _ ≤ (records.filterMap fun P => P.arn.key?).length :=
          ((nodup_eraseDups _).subperm hdistinct).length_le
      _ ≤ records.length := List.length_filterMap_le _ _
      _ = g.roleCount := List.countP_eq_length_filter.symm

/-- The roles that a search is told of are those that it may enter, and its source. -/
theorem contains_enterable {g : Graph} {ev : Evaluator} {trust : Except Fault TrustGraph}
    {c : Context} {q : Identifier} {roles : List Identifier}
    (h : (g.rolesFor ev trust c q).outcome = .ok roles) {r : Identifier} (hr : r ∈ roles)
    (source : Identifier) : (enterable trust source).contains r = !(r == source) := by
  unfold rolesFor at h
  rw [Traced.outcome_bind] at h
  obtain ⟨t, ht, hsome⟩ := bind_eq_ok h
  obtain rfl : trust = .ok t := ht
  rw [Traced.outcome_bind] at hsome
  obtain ⟨id, -, hfound⟩ := bind_eq_ok hsome
  have hkey : r.key ∈ (t.roles.map Identifier.key).eraseDups :=
    List.mem_eraseDups.2 (List.mem_map_of_mem (TrustGraph.rolesOf_subset hfound hr))
  rw [Identifier.eraseDups_keys] at hkey
  obtain ⟨i, hi, he⟩ := List.mem_map.1 hkey
  have hri : (r == i) = true := Identifier.beq_iff.2 he.symm
  rw [Bool.eq_iff_iff, List.contains_eq_any_beq, List.any_eq_true]
  unfold enterable
  simp only [List.mem_filter, Bool.not_eq_true']
  constructor
  · rintro ⟨j, ⟨-, hj⟩, hrj⟩
    rw [← hj]
    exact BEq.congr_left hrj
  · intro hne
    refine ⟨i, ⟨hi, ?_⟩, hri⟩
    rw [← hne]
    exact (BEq.congr_left hri).symm

/-- At the start the table knows the source only. -/
theorem fits_start (g : Graph) (ev : Evaluator) (v : Viewpoint) (source target : Identifier)
    (action : String) :
    (g.oracle ev v target action).Fits 1 (enterable (v.trustOn g) source)
      (Frontier.start source).level (Frontier.start source).depths := by
  have hget (i : Identifier) : (Frontier.start source).depths.get? i =
      if source == i then some 0 else none := rfl
  refine ⟨fun c hc => ?_, fun c hc i hi => ?_, fun i d hd => ?_, fun q roles hroles r hr => ?_⟩
  · obtain rfl := List.mem_singleton.1 hc
    rfl
  · obtain rfl := List.mem_singleton.1 hc
    obtain rfl := List.mem_singleton.1 hi
    rw [hget, if_pos BEq.rfl]
    rfl
  · rw [hget] at hd
    split at hd
    · exact Option.some.inj hd ▸ Nat.one_pos
    · cases hd
  · rw [contains_enterable hroles hr, hget, BEq.comm]
    cases source == r <;> rfl

/-- **A search ends after few rounds.**  The trust in view is that of some graph: of the graph
searched unless it was read before.  The loop over the levels goes on as long as there are chains
and room.  There is one way for it to go, and it takes at most one round more than that graph has
roles, whatever the bounds and however the roles trust each other; what it ends with is what the
search for paths gives. -/
theorem paths_rounds {g g₀ : Graph} {v : Viewpoint} (hv : v.trustOn g = TrustGraph.ofGraph g₀)
    (ev : Evaluator) (source target : Identifier) (action : String) (b : Bounds) :
    ∃ n r, n ≤ 1 + g₀.roleCount ∧
      (∀ m r', (g.oracle ev v target action).Loops b (.start source) m r' ↔ m = n ∧ r' = r) ∧
      ((g.principal? source).isSome = true → (g.resource? target).isSome = true →
        (g.paths ev v source target action b).2.outcome =
          (r.map (·.map (Path.ofChain source target action))).mapError .fault) := by
  obtain ⟨n, hn, hloops⟩ :=
    Oracle.loops_search (b := b) (s := .start source) (fits_start g ev v source target action)
  have hstart (answer : Except Fault (List Chain)) :
      answer.map ((Frontier.start source).arrived ++ ·) = answer := by
    cases answer <;> rfl
  have hroom : b.maxPaths - ((Frontier.start source).arrived.length : Int) = b.maxPaths :=
    Int.sub_zero b.maxPaths
  rw [hstart, hroom] at hloops
  refine ⟨n, _, hn.trans (Nat.add_le_add_left (length_enterable hv source) 1), fun m r' => ?_,
    fun hs ht => paths_explored hs ht⟩
  constructor
  · exact hloops.unique
  · rintro ⟨rfl, rfl⟩
    exact hloops

/-- Two roles that trust each other; one trusts itself as well, the other one everyone. -/
def circle : Graph :=
  let other : Principal := { role with arn := .str "other" }
  let trust := memberOfRole.trust.push "role" "role"
  let trust := (trust.push "role" "other").push "other" "role"
  { memberOfRole with
    principals := memberOfRole.principals.insert "other" other
    trust := trust.push "other" "*" }

/-- The loop ends on the circle after three rounds at most, with the path into the role that has
access. -/
theorem paths_rounds_circle :
    let v : Viewpoint := .ofContext .empty
    let ev : Evaluator := fun _ _ => .ok true
    let b : Bounds := ⟨1000000, 1000000⟩
    v.trustOn circle = TrustGraph.ofGraph circle ∧ circle.roleCount = 2 ∧
      ∃ n r, n ≤ 3 ∧
        (∀ m r', (circle.oracle ev v "file" "read").Loops b (.start "member") m r' ↔
          m = n ∧ r' = r) ∧
        (r.map (·.map (Path.ofChain "member" "file" "read"))).mapError QueryError.fault =
          .ok [Path.ofRoute "member" "file" "read" ["member", "role"]] := by
  intro v ev b
  obtain ⟨n, r, hn, hloops, hpaths⟩ :=
    paths_rounds (Viewpoint.trustOn_ofContext .empty circle) ev "member" "file" "read" b
  have hrun : (circle.paths ev v "member" "file" "read" b).2.outcome =
      .ok [Path.ofRoute "member" "file" "read" ["member", "role"]] := by
    cbv
  exact ⟨rfl, rfl, n, r, hn, hloops, (hpaths rfl rfl).symm.trans hrun⟩

end Graph
end CloudAccess
