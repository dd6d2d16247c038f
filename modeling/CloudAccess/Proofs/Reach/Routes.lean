import Mathlib.Data.List.Chain
import Mathlib.Data.List.Shortlex
import Mathlib.Data.String.Basic

/-!
# Routes

A step relation between names says who can step into whom.  A route from a source is a row of
steps each of which gets as far from the source as so many steps can:

    IsRoute step source cs ↔ cs starts at source, each name steps into the next, and the name
      at position i is at distance i                                             (IsRoute)

Routes from one source are given by the names after it.  The routes of one length are a `Level`
when they are listed in ascending order; each level gives the next one (`Level.extend`).

`Arrivals` are the routes that end at a name with access, shorter ones first.  They can always be
listed (`exists_arrivals`).
-/

namespace CloudAccess

section

variable (step : String → String → Prop) (source : String)

/-- A name is reached by some number of steps. -/
inductive Reaches : Nat → String → Prop
  | here : Reaches 0 source
  | next {n : Nat} {q r : String} : Reaches n q → step q r → Reaches (n + 1) r

/-- The least number of steps by which a name is reached. -/
def Distance (n : Nat) (q : String) : Prop :=
  Reaches step source n q ∧ ∀ m, m < n → ¬ Reaches step source m q

/-- A row of steps from the source, each to a name that is reached for the first time. -/
structure IsRoute (cs : List String) : Prop where
  head : cs.head? = some source
  steps : cs.IsChain step
  distances : ∀ i q, cs[i]? = some q → Distance step source i q

end

variable {step : String → String → Prop} {source : String} {l : List String} {n : Nat}

/-! ## One step more -/

theorem isChain_snoc (r : String) : (source :: (l ++ [r])).IsChain step ↔
    (source :: l).IsChain step ∧ step (l.getLastD source) r := by
  induction l generalizing source with
  | nil => simp
  | cons a rest ih =>
    rw [List.cons_append, List.isChain_cons_cons, List.isChain_cons_cons, ih, and_assoc,
      List.getLastD_cons]

theorem getElem?_last : (source :: l)[l.length]? = some (l.getLastD source) := by
  induction l generalizing source with
  | nil => rfl
  | cons a rest ih =>
    rw [List.length_cons, List.getElem?_cons_succ, List.getLastD_cons]
    exact ih

theorem isRoute_nil : IsRoute step source [source] where
  head := rfl
  steps := .singleton source
  distances i q h := by
    cases i with
    | zero =>
      obtain rfl := Option.some.inj h
      exact ⟨.here, fun m hm => absurd hm (Nat.not_lt_zero m)⟩
    | succ i => cases h

theorem isRoute_snoc (r : String) : IsRoute step source (source :: (l ++ [r])) ↔
    IsRoute step source (source :: l) ∧ step (l.getLastD source) r ∧
      Distance step source (l.length + 1) r := by
  have hlast : (source :: (l ++ [r]))[l.length + 1]? = some r := by
    rw [List.getElem?_cons_succ, List.getElem?_concat_length]
  have hold {i : Nat} (hi : i ≤ l.length) :
      (source :: (l ++ [r]))[i]? = (source :: l)[i]? := by
    rw [← List.cons_append, List.getElem?_append_left (by rw [List.length_cons]; omega)]
  constructor
  · intro h
    refine ⟨⟨rfl, ((isChain_snoc r).1 h.steps).1, fun i q hq => ?_⟩,
      ((isChain_snoc r).1 h.steps).2, h.distances _ r hlast⟩
    obtain ⟨hi, -⟩ := List.getElem?_eq_some_iff.1 hq
    rw [List.length_cons] at hi
    exact h.distances i q ((hold (by omega)).trans hq)
  · rintro ⟨h, hs, hd⟩
    refine ⟨rfl, (isChain_snoc r).2 ⟨h.steps, hs⟩, fun i q hq => ?_⟩
    obtain ⟨hi, -⟩ := List.getElem?_eq_some_iff.1 hq
    rw [List.length_cons, List.length_append, List.length_singleton] at hi
    rcases Nat.lt_or_eq_of_le (Nat.le_of_lt_succ hi) with hlt | rfl
    · exact h.distances i q ((hold (by omega)).symm.trans hq)
    · rw [hlast] at hq
      obtain rfl := Option.some.inj hq
      exact hd

/-- The last name of a route is as far from the source as the route is long. -/
theorem IsRoute.distance_last (h : IsRoute step source (source :: l)) :
    Distance step source l.length (l.getLastD source) :=
  h.distances _ _ getElem?_last

/-- A route can be cut short. -/
theorem IsRoute.take (h : IsRoute step source (source :: l)) (n : Nat) :
    IsRoute step source (source :: l.take n) := by
  induction l using List.reverseRecOn with
  | nil => rwa [List.take_nil]
  | append_singleton l r ih =>
    rcases Nat.lt_or_ge l.length n with hn | hn
    · rwa [List.take_of_length_le (by rw [List.length_append, List.length_singleton]; omega)]
    · rw [List.take_append_of_le_length hn]
      exact ih ((isRoute_snoc r).1 h).1

/-- Every name that is reached ends a route. -/
theorem exists_route {r : String} (h : Distance step source n r) :
    ∃ l, IsRoute step source (source :: l) ∧ l.length = n ∧ l.getLastD source = r := by
  induction n generalizing r with
  | zero =>
    cases h.1
    exact ⟨[], isRoute_nil, rfl, rfl⟩
  | succ n ih =>
    obtain ⟨hr, hmin⟩ := h
    cases hr with
    | @next _ q _ hq hs =>
      have hqd : Distance step source n q :=
        ⟨hq, fun m hm hm' => hmin (m + 1) (by omega) (.next hm' hs)⟩
      obtain ⟨l, hl, rfl, rfl⟩ := ih hqd
      refine ⟨l ++ [r], (isRoute_snoc r).2 ⟨hl, hs, .next hq hs, hmin⟩, ?_, ?_⟩
      · rw [List.length_append, List.length_singleton]
      · rw [List.getLastD_concat]

/-! ## Levels -/

/-- The routes of one length in ascending order. -/
structure Level (step : String → String → Prop) (source : String) (n : Nat)
    (ls : List (List String)) : Prop where
  sorted : ls.Pairwise (List.Lex (· < ·))
  mem_iff : ∀ l, l ∈ ls ↔ IsRoute step source (source :: l) ∧ l.length = n

theorem lex_append {a b : List String} (h : List.Lex (· < ·) a b) (hl : a.length = b.length)
    (x y : List String) : List.Lex (· < ·) (a ++ x) (b ++ y) := by
  induction h with
  | nil => cases hl
  | rel hab => exact .rel hab
  | cons _ ih => exact .cons (ih (Nat.succ.inj hl))

theorem level_zero : Level step source 0 [[]] where
  sorted := List.pairwise_singleton _ _
  mem_iff l := by
    rw [List.mem_singleton]
    constructor
    · rintro rfl
      exact ⟨isRoute_nil, rfl⟩
    · exact fun h => List.length_eq_zero_iff.1 h.2

/-- A level with the names that each of its routes can go on to, in ascending order, gives the
next level. -/
theorem Level.extend {ls : List (List String)} (h : Level step source n ls)
    (ext : List String → List String) (hsorted : ∀ l ∈ ls, (ext l).Pairwise (· < ·))
    (hext : ∀ l ∈ ls, ∀ r, r ∈ ext l ↔
      step (l.getLastD source) r ∧ Distance step source (n + 1) r) :
    Level step source (n + 1) (ls.flatMap fun l => (ext l).map fun r => l ++ [r]) where
  sorted := by
    rw [List.pairwise_flatMap]
    constructor
    · intro l hl
      rw [List.pairwise_map]
      exact (hsorted l hl).imp fun hab => List.Lex.append_left _ (.rel hab) l
    · refine h.sorted.imp_of_mem fun {a b} ha hb hab => ?_
      intro x hx y hy
      obtain ⟨r, -, rfl⟩ := List.mem_map.1 hx
      obtain ⟨r', -, rfl⟩ := List.mem_map.1 hy
      have hlen : a.length = b.length := by
        rw [((h.mem_iff a).1 ha).2, ((h.mem_iff b).1 hb).2]
      exact lex_append hab hlen [r] [r']
  mem_iff k := by
    rw [List.mem_flatMap]
    constructor
    · rintro ⟨l, hl, hk⟩
      obtain ⟨r, hr, rfl⟩ := List.mem_map.1 hk
      obtain ⟨hroute, rfl⟩ := (h.mem_iff l).1 hl
      obtain ⟨hs, hd⟩ := (hext l hl r).1 hr
      exact ⟨(isRoute_snoc r).2 ⟨hroute, hs, hd⟩, by rw [List.length_append, List.length_singleton]⟩
    · rintro ⟨hroute, hlen⟩
      rcases List.eq_nil_or_concat' k with rfl | ⟨l, r, rfl⟩
      · cases hlen
      · rw [List.length_append, List.length_singleton] at hlen
        obtain ⟨hroute, hs, hd⟩ := (isRoute_snoc r).1 hroute
        have hn : l.length = n := by omega
        have hl : l ∈ ls := (h.mem_iff l).2 ⟨hroute, hn⟩
        rw [hn] at hd
        exact ⟨l, hl, List.mem_map.2 ⟨r, (hext l hl r).2 ⟨hs, hd⟩, rfl⟩⟩

/-! ## Arrivals -/

/-- A step is from a name without access to one of its successors. -/
def Steps (access : String → Bool) (next : String → List String) (q r : String) : Prop :=
  access q = false ∧ r ∈ next q

/-- The last name has access. -/
def arrives (access : String → Bool) (source : String) (l : List String) : Bool :=
  access (l.getLastD source)

variable {access : String → Bool} {next : String → List String} {maxHops : Int}

/-- The routes of some length and more that end with access, within a number of hops: one for
each step and one for the access. -/
structure Arrivals (access : String → Bool) (next : String → List String) (source : String)
    (maxHops : Int) (n : Nat) (ls : List (List String)) : Prop where
  sorted : ls.Pairwise (List.Shortlex (· < ·))
  mem_iff : ∀ l, l ∈ ls ↔ IsRoute (Steps access next) source (source :: l) ∧ n ≤ l.length ∧
    (l.length : Int) + 1 ≤ maxHops ∧ arrives access source l = true

/-- When no route of some length is within the hops, none that is as long or longer arrives. -/
theorem arrivals_nil (h : ∀ l, IsRoute (Steps access next) source (source :: l) →
    l.length = n → (n : Int) + 1 ≤ maxHops → False) :
    Arrivals access next source maxHops n [] where
  sorted := .nil
  mem_iff l := by
    refine ⟨fun hl => absurd hl List.not_mem_nil, ?_⟩
    rintro ⟨hroute, hn, hhops, -⟩
    exact absurd (h (l.take n) (hroute.take n) (List.length_take_of_le hn) (by omega)) id

/-- The routes of a level that arrive come before the longer ones. -/
theorem Level.arrivals {ls more : List (List String)} (h : Level (Steps access next) source n ls)
    (hn : (n : Int) + 1 ≤ maxHops) (hm : Arrivals access next source maxHops (n + 1) more) :
    Arrivals access next source maxHops n
      (ls.filter (arrives access source) ++ more) where
  sorted := by
    rw [List.pairwise_append]
    refine ⟨?_, hm.sorted, fun a ha b hb => ?_⟩
    · refine (h.sorted.filter _).imp_of_mem fun {a b} ha hb hab => ?_
      have hla := ((h.mem_iff a).1 (List.mem_of_mem_filter ha)).2
      have hlb := ((h.mem_iff b).1 (List.mem_of_mem_filter hb)).2
      exact .of_lex (hla.trans hlb.symm) hab
    · have hla := ((h.mem_iff a).1 (List.mem_of_mem_filter ha)).2
      have hlb := ((hm.mem_iff b).1 hb).2.1
      exact .of_length_lt (by omega)
  mem_iff l := by
    rw [List.mem_append, List.mem_filter, h.mem_iff, hm.mem_iff]
    constructor
    · rintro (⟨⟨hroute, hl⟩, ha⟩ | ⟨hroute, hl, hhops, ha⟩)
      · exact ⟨hroute, by omega, by omega, ha⟩
      · exact ⟨hroute, by omega, hhops, ha⟩
    · rintro ⟨hroute, hl, hhops, ha⟩
      rcases Nat.eq_or_lt_of_le hl with he | hlt
      · exact .inl ⟨⟨hroute, he.symm⟩, ha⟩
      · exact .inr ⟨hroute, hlt, hhops, ha⟩

/-- Each level can be listed when the successors of every name are in ascending order. -/
theorem exists_level (hnext : ∀ q, (next q).Pairwise (· < ·)) (source : String) (n : Nat) :
    ∃ ls, Level (Steps access next) source n ls := by
  classical
  induction n with
  | zero => exact ⟨_, level_zero⟩
  | succ n ih =>
    obtain ⟨ls, h⟩ := ih
    refine ⟨_, h.extend (fun l => if access (l.getLastD source) then [] else
      (next (l.getLastD source)).filter fun r => Distance (Steps access next) source (n + 1) r)
      (fun l _ => ?_) (fun l _ r => ?_)⟩
    · split
      · exact .nil
      · exact (hnext _).filter _
    · split
      · next ha =>
        refine ⟨fun hr => absurd hr List.not_mem_nil, fun ⟨hs, _⟩ => ?_⟩
        exact absurd ha (by rw [hs.1]; exact Bool.false_ne_true)
      · next ha =>
        rw [List.mem_filter, decide_eq_true_eq]
        exact and_congr_left fun _ => ⟨fun hr => ⟨by simpa using ha, hr⟩, fun hs => hs.2⟩

/-- All that arrives within some hops can be listed. -/
theorem exists_arrivals (hnext : ∀ q, (next q).Pairwise (· < ·)) (source : String)
    (maxHops : Int) (n : Nat) : ∃ ls, Arrivals access next source maxHops n ls := by
  induction hk : (maxHops - n).toNat generalizing n with
  | zero => exact ⟨[], arrivals_nil fun l _ _ hhops => by omega⟩
  | succ k ih =>
    obtain ⟨more, hm⟩ := ih (n + 1) (by omega)
    obtain ⟨ls, h⟩ := exists_level hnext source n
    exact ⟨_, h.arrivals (by omega) hm⟩

/-- All that arrives, as routes with their source. -/
theorem Arrivals.routes {ls : List (List String)}
    (h : Arrivals access next source maxHops 0 ls) :
    (ls.map (source :: ·)).Pairwise (List.Shortlex (· < ·)) ∧
      ∀ cs, cs ∈ ls.map (source :: ·) ↔ IsRoute (Steps access next) source cs ∧
        (cs.length : Int) ≤ maxHops ∧ access (cs.getLastD source) = true := by
  constructor
  · rw [List.pairwise_map]
    exact h.sorted.imp fun hab => hab.cons
  · intro cs
    rw [List.mem_map]
    constructor
    · rintro ⟨l, hl, rfl⟩
      obtain ⟨hroute, -, hhops, ha⟩ := (h.mem_iff l).1 hl
      rw [List.length_cons, List.getLastD_cons]
      exact ⟨hroute, by omega, ha⟩
    · rintro ⟨hroute, hhops, ha⟩
      cases cs with
      | nil => cases hroute.head
      | cons a l =>
        obtain rfl : a = source := Option.some.inj hroute.head
        rw [List.length_cons] at hhops
        rw [List.getLastD_cons] at ha
        exact ⟨l, (h.mem_iff l).2 ⟨hroute, Nat.zero_le _, by omega, ha⟩, rfl⟩

end CloudAccess
