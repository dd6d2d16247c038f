import CloudAccess.Proofs.Decision.Guardrails
import CloudAccess.Proofs.Decision.Undecided

/-!
# One edge more

An allow edge more only adds access, a deny edge more only takes it away, to whomever it belongs:

    (g.permits … p).outcome = .ok true →
      ((g.insertEdge owner action false edge).permits … p).outcome = .ok true
    (g.permits … p).outcome = .ok false →
      ((g.insertEdge owner action true edge).permits … p).outcome = .ok false
                                                                        (permits_insertEdge)

The new edge stands somewhere among the edges that concern a request (`concerning_add`).  It can be
tried, so a scan that comes to it has its old answer, or finds it (`anyPasses_insert`).  So each of
the layers of one's own says what it said, or what the edge says (`Tends`); only the layer of
groups can turn the other way, from an allow to none, and then there is no layer after it.

Nothing is assumed of the graph: it may hold identifiers that are no texts, on which other
requests end in a fault.
-/

namespace CloudAccess

open Condition (Evaluator)

/-! ## Scans -/

/-- A scan that has one more item to try keeps its answer, or finds that item. -/
theorem anyPasses_insert {α : Type} {test : α → Except Fault Bool} {a : α} {b : Bool}
    (ha : test a = .ok b) (before after : List α) :
    Grows (anyPasses test (before ++ after)) (anyPasses test (before ++ a :: after)) := by
  induction before with
  | nil =>
    intro found hfound
    rw [List.nil_append, anyPasses, ha]
    cases b with
    | true => exact ⟨true, rfl, fun _ => rfl⟩
    | false => exact ⟨found, hfound, id⟩
  | cons head before ih =>
    intro found hfound
    rw [List.cons_append, anyPasses] at hfound ⊢
    obtain ⟨hit, hhead, hrest⟩ := bind_eq_ok hfound
    rw [hhead]
    cases hit with
    | true => exact ⟨true, rfl, fun _ => rfl⟩
    | false => exact ih found hrest

/-! ## Edges that concern a request -/

/-- An item more under one key stands somewhere among the items of all keys that pass a test, or
under a key that does not pass. -/
theorem OrderedMap.flatMap_push {α : Type} (m : OrderedMap String (List α)) (passes : String → Bool)
    (k : String) (a : α) :
    let items (m : OrderedMap String (List α)) :=
      m.entries.flatMap fun (k, held) => if passes k then held else []
    items (m.push k a) = items m ∨
      ∃ before after, items m = before ++ after ∧ items (m.push k a) = before ++ a :: after := by
  intro items
  obtain ⟨entries⟩ := m
  unfold items push alter
  induction entries with
  | nil =>
    cases hk : passes k with
    | true => exact .inr ⟨[], [], rfl, by simp [alterEntries, hk]⟩
    | false => exact .inl (by simp [alterEntries, hk])
  | cons entry rest ih =>
    obtain ⟨k', held⟩ := entry
    by_cases hk : (k' == k) = true
    · obtain rfl : k' = k := eq_of_beq hk
      cases hp : passes k' with
      | true =>
        refine .inr ⟨held, rest.flatMap fun (k, held) => if passes k then held else [], ?_, ?_⟩
        · simp [hp]
        · simp [alterEntries, hp]
      | false => exact .inl (by simp [alterEntries, hp])
    · simp only [alterEntries, hk, Bool.false_eq_true, if_false, List.flatMap_cons]
      rcases ih with he | ⟨before, after, hold, hnew⟩
      · exact .inl (congrArg _ he)
      · refine .inr ⟨(if passes k' then held else []) ++ before, after, ?_, ?_⟩
        · rw [hold, List.append_assoc]
        · rw [hnew, List.append_assoc]

namespace EdgeIndex

/-- What concerns a request of an owner is as before, or the new edge stands somewhere in it. -/
theorem concerning_add (ix : EdgeIndex) (owner o : Identifier) (action a : String) (e : Edge) :
    (ix.add owner action e).concerning o a = ix.concerning o a ∨
      ∃ before after, ix.concerning o a = before ++ after ∧
        (ix.add owner action e).concerning o a = before ++ e :: after := by
  unfold concerning
  rw [of_add]
  split
  · exact OrderedMap.flatMap_push (ix.of o) (actionMatches · a) action e
  · exact .inl rfl

/-- A scan of the edges that concern a request keeps its answer, or finds the new edge. -/
theorem anyPasses_add {test : Edge → Except Fault Bool} {e : Edge} {b : Bool} (he : test e = .ok b)
    (ix : EdgeIndex) (owner o : Identifier) (action a : String) :
    Grows (anyPasses test (ix.concerning o a))
      (anyPasses test ((ix.add owner action e).concerning o a)) := by
  rcases concerning_add ix owner o action a e with hsame | ⟨before, after, hold, hnew⟩
  · rw [hsame]
    exact fun found hfound => ⟨found, hfound, id⟩
  · rw [hold, hnew]
    exact anyPasses_insert he before after

end EdgeIndex

/-! ## Going through the layers -/

/-- What a layer says that settles a request. -/
def Verdict.settling (allowed : Bool) : Verdict := if allowed then .allow else .deny

/-- A layer that says something says the same, or settles the request in one way. -/
def Tends (allowed : Bool) (o o' : Except Fault Verdict) : Prop :=
  ∀ v, o = .ok v → o' = .ok v ∨ o' = .ok (.settling allowed)

theorem Tends.refl (allowed : Bool) (o : Except Fault Verdict) : Tends allowed o o :=
  fun _ h => .inl h

/-- A layer that scans for what settles a request so. -/
theorem Grows.tends {o o' : Except Fault Bool} (h : Grows o o') (allowed : Bool) :
    Tends allowed (o.map fun hit => if hit then .settling allowed else .notApplicable)
      (o'.map fun hit => if hit then .settling allowed else .notApplicable) := by
  intro v hv
  obtain ⟨hit, ho, rfl⟩ := map_eq_ok hv
  obtain ⟨hit', ho', himp⟩ := h hit ho
  rw [ho']
  cases hit with
  | true => rw [himp rfl]; exact .inl rfl
  | false =>
    cases hit' with
    | true => exact .inr rfl
    | false => exact .inl rfl

/-- A run through layers that tend one way ends as it did, or is settled that way. -/
theorem settle_tends {v v' : Layer → Run Fault Verdict} {allowed : Bool} {ls : List Layer}
    (h : ∀ l ∈ ls, Tends allowed (v l).outcome (v' l).outcome) {d : Decision}
    (ho : (Graph.settle v ls).outcome = .ok d) :
    ∃ d', (Graph.settle v' ls).outcome = .ok d' ∧ (d' = d ∨ ∃ l, d' = ⟨allowed, some l⟩) := by
  have settled {l : Layer} {rest : List Layer}
      (hl : (v' l).outcome = .ok (.settling allowed)) :
      (Graph.settle v' (l :: rest)).outcome = .ok ⟨allowed, some l⟩ := by
    cases allowed with
    | true => exact settle_allow hl
    | false => exact settle_deny hl
  induction ls with
  | nil => exact ⟨d, ho, .inl rfl⟩
  | cons l rest ih =>
    obtain ⟨verdict, hv⟩ := settle_answers ho
    rcases h l List.mem_cons_self verdict hv with hv' | hv'
    · cases verdict with
      | allow =>
        rw [settle_allow hv] at ho
        exact ⟨d, by rw [settle_allow hv', ho], .inl rfl⟩
      | deny =>
        rw [settle_deny hv] at ho
        exact ⟨d, by rw [settle_deny hv', ho], .inl rfl⟩
      | notApplicable =>
        rw [settle_skip hv] at ho
        rw [settle_skip hv']
        exact ih (fun k hk => h k (List.mem_cons_of_mem l hk)) ho
    · exact ⟨_, settled hv', .inr ⟨l, rfl⟩⟩

namespace Graph

/-! ## One edge more -/

section

variable (g : Graph) (owner : Identifier) (action : String) {edge : Edge}
  (hedge : ∃ q, edge.pattern = .str q) (x : Setting)

include hedge

/-- An edge that is about texts can be tried against the request. -/
theorem covers_answers : ∃ b, covers edge.pattern x.request.resource = .ok b := by
  obtain ⟨q, hq⟩ := hedge
  exact ⟨resourceMatches q x.target, by rw [hq]; rfl⟩

/-- Each layer of one's own says what it said, or what the new edge says. -/
theorem ownVerdict_insertEdge (deny : Bool) (p : String) (l : Layer) :
    Tends (!deny) (g.ownVerdict x.evaluator x.request p l).outcome
      ((g.insertEdge owner action deny edge).ownVerdict x.evaluator x.request p l).outcome := by
  obtain ⟨b, hb⟩ := covers_answers hedge x
  cases l with
  | denials =>
    rw [denials_outcome, denials_outcome]
    cases deny with
    | false => exact .refl _ _
    | true =>
      have hscan : ∀ o : Json, Grows (g.deniesOwner x.evaluator x.request o)
          ((g.insertEdge owner action true edge).deniesOwner x.evaluator x.request o) := by
        intro o found hfound
        unfold deniesOwner at hfound ⊢
        obtain ⟨id, hid, hrest⟩ := bind_eq_ok hfound
        rw [hid]
        refine EdgeIndex.anyPasses_add (b := b && perhaps (x.answer edge.conditions)) ?_
          g.denies owner id action x.action found hrest
        unfold Edge.denies
        rw [hb]
        rfl
      exact (anyPasses_grows hscan _).tends false
  | grants =>
    rw [grants_outcome, grants_outcome]
    cases deny with
    | true => exact .refl _ _
    | false =>
      refine Grows.tends (EdgeIndex.anyPasses_add (b := b && surely (x.answer edge.conditions)) ?_
        g.allows owner (.text p) action x.action) true
      unfold Edge.allows
      rw [hb]
      rfl
  | _ => cases deny <;> exact .refl _ _

/-- The run through the layers of one's own ends as it did, or is settled by the new edge. -/
theorem settle_insertEdge (deny : Bool) (p : String) {d : Decision}
    (ho : (settle (g.ownVerdict x.evaluator x.request p) Layer.own).outcome = .ok d) :
    ∃ d', (settle ((g.insertEdge owner action deny edge).ownVerdict x.evaluator x.request p)
        Layer.own).outcome = .ok d' ∧ (d' = d ∨ ∃ l, d' = ⟨!deny, some l⟩) :=
  settle_tends (fun l _ => ownVerdict_insertEdge g owner action hedge x deny p l) ho

theorem grantsGroup_insertEdge (deny : Bool) {group : Json} {b : Bool}
    (ho : g.grantsGroup x.evaluator x.request group = .ok b) :
    ∃ b', (g.insertEdge owner action deny edge).grantsGroup x.evaluator x.request group = .ok b' ∧
      (b' = b ∨ b' = !deny) := by
  unfold grantsGroup at ho ⊢
  obtain ⟨name, hname, ho⟩ := bind_eq_ok ho
  obtain ⟨d, hd, ho⟩ := bind_eq_ok ho
  obtain rfl := Except.ok.inj ho
  obtain ⟨d', hd', hor⟩ := settle_insertEdge g owner action hedge x deny name hd
  rw [hname, ok_bind, hd']
  refine ⟨d'.allowed, rfl, ?_⟩
  rcases hor with rfl | ⟨l, rfl⟩
  · exact .inl rfl
  · exact .inr rfl

/-- A scan of groups ends as it did, or as the new edge has it.  With a deny edge more it may go on
past a group that was granted the request before, so then there must have been none. -/
theorem groups_insertEdge (deny : Bool) {groups : List Json} {hit : Bool}
    (hscan : anyPasses (g.grantsGroup x.evaluator x.request) groups = .ok hit)
    (hnone : deny = true → hit = false) :
    ∃ hit', anyPasses ((g.insertEdge owner action deny edge).grantsGroup x.evaluator x.request)
        groups = .ok hit' ∧ (hit' = hit ∨ hit' = !deny) := by
  cases deny with
  | false =>
    have hgroup (group : Json) : Grows (g.grantsGroup x.evaluator x.request group)
        ((g.insertEdge owner action false edge).grantsGroup x.evaluator x.request group) := by
      intro b hb
      obtain ⟨b', hb', hor⟩ := grantsGroup_insertEdge g owner action hedge x false hb
      refine ⟨b', hb', fun ht => ?_⟩
      rcases hor with rfl | rfl
      · exact ht
      · rfl
    obtain ⟨hit', hscan', himp⟩ := anyPasses_grows hgroup groups hit hscan
    refine ⟨hit', hscan', ?_⟩
    cases hit with
    | true => exact .inl (himp rfl)
    | false => exact (Bool.eq_false_or_eq_true hit').symm
  | true =>
    obtain rfl := hnone rfl
    have hgroup (group : Json) (hb : g.grantsGroup x.evaluator x.request group = .ok false) :
        (g.insertEdge owner action true edge).grantsGroup x.evaluator x.request group =
          .ok false := by
      obtain ⟨b', hb', hor⟩ := grantsGroup_insertEdge g owner action hedge x true hb
      rcases hor with rfl | rfl
      · exact hb'
      · exact hb'
    exact ⟨false, anyPasses_stays hgroup hscan, .inl rfl⟩

/-- The decision stays as it was, or goes the way of the new edge. -/
theorem decide_insertEdge (deny : Bool) {p : String} {d : Decision}
    (ho : (g.decide x.evaluator x.request p).outcome = .ok d)
    (hdenied : deny = true → d.allowed = false) :
    ∃ d', ((g.insertEdge owner action deny edge).decide x.evaluator x.request p).outcome = .ok d' ∧
      (d' = d ∨ d'.allowed = !deny) := by
  have hgroups : (g.insertEdge owner action deny edge).groupsOf p = g.groupsOf p := by
    cases deny <;> rfl
  rw [decide_outcome] at ho ⊢
  rw [hgroups]
  obtain ⟨own, hown, ho⟩ := bind_eq_ok ho
  obtain ⟨own', hown', hor⟩ := settle_insertEdge g owner action hedge x deny p hown
  rw [hown', ok_bind]
  rcases hor with rfl | ⟨l, rfl⟩
  · cases hl : own'.layer with
    | some l =>
      rw [hl] at ho
      exact ⟨d, ho, .inl rfl⟩
    | none =>
      rw [hl] at ho
      obtain ⟨hit, hscan, rfl⟩ := map_eq_ok ho
      have hallowed (hit : Bool) : (ofGroups hit).allowed = hit := by cases hit <;> rfl
      rw [hallowed] at hdenied
      obtain ⟨hit', hscan', hor⟩ := groups_insertEdge g owner action hedge x deny hscan hdenied
      refine ⟨ofGroups hit', congrArg (Except.map ofGroups) hscan', ?_⟩
      rcases hor with rfl | rfl
      · exact .inl rfl
      · exact .inr (hallowed _)
  · exact ⟨_, rfl, .inr rfl⟩

end

/-! ## Top theorem -/

/-- **An edge more works one way.**  Whoever owns it and whatever its patterns and its condition
are, what was permitted stays permitted with an allow edge more, and what was denied stays denied
with a deny edge more. -/
theorem permits_insertEdge (g : Graph) (owner : Identifier) (action pattern : String)
    (conditions : Json) (label : String) (x : Setting) (p : Json) :
    ((g.permits x.evaluator x.request p).outcome = .ok true →
      ((g.insertEdge owner action false ⟨.str pattern, conditions, label⟩).permits x.evaluator
        x.request p).outcome = .ok true) ∧
    ((g.permits x.evaluator x.request p).outcome = .ok false →
      ((g.insertEdge owner action true ⟨.str pattern, conditions, label⟩).permits x.evaluator
        x.request p).outcome = .ok false) := by
  have hedge : ∃ q, (⟨.str pattern, conditions, label⟩ : Edge).pattern = .str q := ⟨pattern, rfl⟩
  have stays (deny : Bool) (ho : (g.permits x.evaluator x.request p).outcome = .ok (!deny)) :
      ((g.insertEdge owner action deny ⟨.str pattern, conditions, label⟩).permits x.evaluator
        x.request p).outcome = .ok (!deny) := by
    obtain ⟨name, d, rfl, hd, hallowed⟩ := permits_ok ho
    obtain ⟨d', hd', hor⟩ := decide_insertEdge g owner action hedge x deny hd (by
      rintro rfl
      exact hallowed)
    rw [permits_outcome, decision_outcome, hd']
    rcases hor with rfl | hallowed'
    · exact congrArg Except.ok hallowed
    · exact congrArg Except.ok hallowed'
  exact ⟨stays false, stays true⟩

/-- A member keeps what the staff may do when the staff gets a doubtful allow as well, and a guest
is not helped by a deny. -/
theorem permits_insertEdge_memberOfGroup :
    let x : Setting := ⟨decidesNull, .empty, "read", "file"⟩
    let allow := memberOfGroup.insertEdge "staff" "read" false ⟨.str "f*", .str "unheard of", ""⟩
    let deny := memberOfGroup.insertEdge "guest" "read" true ⟨.str "file", .null, ""⟩
    (memberOfGroup.permits x.evaluator x.request (.str "member")).outcome = .ok true ∧
      (allow.permits x.evaluator x.request (.str "member")).outcome = .ok true ∧
      (memberOfGroup.permits x.evaluator x.request (.str "guest")).outcome = .ok false ∧
      (deny.permits x.evaluator x.request (.str "guest")).outcome = .ok false :=
  ⟨rfl, (permits_insertEdge _ _ _ _ _ _ _ _).1 rfl, rfl,
    (permits_insertEdge _ _ _ _ _ _ _ _).2 rfl⟩

end Graph
end CloudAccess
