import CloudAccess.Proofs.Reach.Search

/-!
# The search misses no exposure

The search follows routes only: it stops at names with access, and enters a role at the first
level that reaches it.  Still it finds something whenever there is any chain of names, each of
which may step into the next, that ends with access within the hops:

    found ≠ [] ↔ ∃ cs, cs starts at the source, each name may step into the next, there are at
      most `maxHops` names, and the last one has access                 (Graph.paths_ne_nil_iff)

A chain may pass names with access, names that it has passed before, and step in place.  It is cut
at the first name with access and its steps in place are left out (`exists_reaches`); a name that
is then reached at all is reached by a route, which is no longer (`exists_short_route`).
-/

namespace CloudAccess

/-! ## Chains and routes -/

section

variable {access : String → Bool} {next : String → List String} {source q : String}
  {enter : String → String → Prop} {n : Nat}

/-- The first name with access on a chain is reached in as many steps as there are names before
it, or in fewer. -/
theorem exists_reaches (hnext : ∀ q r, enter q r → r ≠ q → r ∈ next q) {l : List String}
    (hl : (q :: l).IsChain enter) (ha : access (l.getLastD q) = true)
    (hq : Reaches (Steps access next) source n q) :
    ∃ k r, k ≤ n + l.length ∧ Reaches (Steps access next) source k r ∧ access r = true := by
  induction l generalizing q n with
  | nil => exact ⟨n, q, Nat.le_refl n, hq, ha⟩
  | cons a rest ih =>
    rw [List.getLastD_cons] at ha
    obtain ⟨hstep, hrest⟩ := List.isChain_cons_cons.1 hl
    cases hacc : access q with
    | true => exact ⟨n, q, Nat.le_add_right n _, hq, hacc⟩
    | false =>
      by_cases hself : a = q
      · -- a step in place
        rw [hself] at hrest ha
        obtain ⟨k, r, hk, hr⟩ := ih hrest ha hq
        exact ⟨k, r, by rw [List.length_cons]; omega, hr⟩
      · obtain ⟨k, r, hk, hr⟩ := ih hrest ha (.next hq ⟨hacc, hnext q a hstep hself⟩)
        exact ⟨k, r, by rw [List.length_cons]; omega, hr⟩

/-- What is reached by some number of steps ends a route of no more steps. -/
theorem exists_short_route {step : String → String → Prop} {k : Nat} {r : String}
    (h : Reaches step source k r) :
    ∃ l, IsRoute step source (source :: l) ∧ l.length ≤ k ∧ l.getLastD source = r := by
  classical
  have hsome : ∃ m, Reaches step source m r := ⟨k, h⟩
  have hd : Distance step source (Nat.find hsome) r :=
    ⟨Nat.find_spec hsome, fun m hm => Nat.find_min hsome hm⟩
  obtain ⟨l, hroute, hlen, hlast⟩ := exists_route hd
  exact ⟨l, hroute, hlen ▸ Nat.find_min' hsome h, hlast⟩

/-- Something arrives within the hops exactly when a chain ends with access within them. -/
theorem Arrivals.ne_nil_iff {maxHops : Int} {found : List (List String)}
    (h : Arrivals access next source maxHops 0 found)
    (hnext : ∀ q r, r ∈ next q ↔ r ≠ q ∧ enter q r) :
    found ≠ [] ↔ ∃ cs : List String, cs.head? = some source ∧ (cs.length : Int) ≤ maxHops ∧
      cs.IsChain enter ∧ access (cs.getLastD source) = true := by
  constructor
  · intro hne
    obtain ⟨l, hl⟩ := List.exists_mem_of_ne_nil found hne
    obtain ⟨hroute, -, hhops, ha⟩ := (h.mem_iff l).1 hl
    refine ⟨source :: l, rfl, by rw [List.length_cons]; omega, ?_, ?_⟩
    · exact hroute.steps.imp fun q r hs => ((hnext q r).1 hs.2).2
    · rwa [List.getLastD_cons]
  · rintro ⟨cs, hhead, hhops, hchain, ha⟩
    cases cs with
    | nil => cases hhead
    | cons a l =>
      obtain rfl : a = source := Option.some.inj hhead
      rw [List.getLastD_cons] at ha
      rw [List.length_cons] at hhops
      obtain ⟨k, r, hk, hreach, hr⟩ :=
        exists_reaches (fun q r he hne => (hnext q r).2 ⟨hne, he⟩) hchain ha .here
      obtain ⟨short, hroute, hlen, hlast⟩ := exists_short_route hreach
      have harrives : arrives access a short = true := by
        unfold arrives
        rw [hlast]
        exact hr
      have hmem : short ∈ found :=
        (h.mem_iff short).2 ⟨hroute, Nat.zero_le _, by omega, harrives⟩
      exact List.ne_nil_of_mem hmem

end

namespace Graph

/-! ## Top theorem -/

/-- **No exposure is missed.**  On a graph whose identifiers are texts the search for paths gives
an answer.  It finds a path exactly when there is a chain of names from the source, each of which
may step into the role after it, that is within the hops and ends with access to the target. -/
theorem paths_ne_nil_iff {g : Graph} (hg : g.Textual) (x : Setting) {source : String}
    {P : Principal} {R : Resource} (hs : g.principal? source = some P)
    (ht : g.resource? x.target = some R) (b : Bounds) (hhops : 1 ≤ b.maxHops)
    (hpaths : 1 ≤ b.maxPaths) :
    ∃ found, (g.paths x.evaluator (.ofContext x.context) source x.target x.action b).2.outcome =
        .ok found ∧
      (found ≠ [] ↔ ∃ cs : List String, cs.head? = some source ∧ (cs.length : Int) ≤ b.maxHops ∧
        cs.IsChain (g.MayEnter x.evaluator x.context) ∧
        (g.permits x.evaluator x.request (.str (cs.getLastD source))).outcome = .ok true) := by
  obtain ⟨access, next, ts, h⟩ := exists_known hg x
  obtain ⟨found, hfound, hexplore⟩ := h.explore_outcome source hhops
  refine ⟨_, paths_outcome hs ht hexplore, ?_⟩
  have hroom : b.maxPaths.toNat ≠ 0 := by omega
  simp only [h.permits, Except.ok.injEq]
  rw [← hfound.ne_nil_iff h.entered, ne_eq, ne_eq, List.map_eq_nil_iff, List.map_eq_nil_iff,
    List.take_eq_nil_iff, or_iff_right hroom]

/-- The chain of the member and its role shows that there is a path to the file. -/
theorem paths_ne_nil_memberOfRole :
    let x : Setting := ⟨fun _ _ => .ok true, .empty, "read", "file"⟩
    memberOfRole.Textual ∧ (memberOfRole.principal? "member").isSome = true ∧
      (memberOfRole.resource? "file").isSome = true ∧
      memberOfRole.MayEnter x.evaluator x.context "member" "role" ∧
      (memberOfRole.permits x.evaluator x.request (.str "role")).outcome = .ok true ∧
      ∃ found, (memberOfRole.paths x.evaluator (.ofContext x.context) "member" "file" "read"
        ⟨2, 1⟩).2.outcome = .ok found ∧ found ≠ [] := by
  intro x
  have hs : memberOfRole.principal? "member" = some member := rfl
  have hrole : memberOfRole.principals.get? "role" = some role := rfl
  have henter : memberOfRole.MayEnter x.evaluator x.context "member" "role" :=
    ⟨⟨rfl, role, OrderedMap.mem_values_of_get? hrole, rfl, rfl⟩, .inl (by decide)⟩
  have haccess : (memberOfRole.permits x.evaluator x.request (.str "role")).outcome =
      .ok true := by rfl
  obtain ⟨found, ho, hiff⟩ := paths_ne_nil_iff memberOfRole_textual x hs rfl ⟨2, 1⟩
    (by decide) (by decide)
  refine ⟨memberOfRole_textual, rfl, rfl, henter, haccess, found, ho, hiff.2 ?_⟩
  exact ⟨["member", "role"], rfl, by decide, by simpa using henter, haccess⟩

end Graph
end CloudAccess
