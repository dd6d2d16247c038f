import CloudAccess.Condition.Block
import CloudAccess.Proofs.Decision.Scans
import CloudAccess.Proofs.Paired

/-!
# The order of a condition block

The clauses of a block are tried one after the other, and so are the expected values of a clause.
What is false settles the block, what is met settles an actual value, and what cannot be decided
settles either, whichever comes first.

* A clause wavers (`Clause.wavers`) when, for one actual value, some expected value is met and
  another one cannot be compared: then it depends on their order which comes first.
* `Rearranged` relates blocks with operators, keys and expected values in another order.
* `Steady` says of a block that its order does not matter to an allow, or to a deny.  An allow asks
  for a block that is true, and a deny for one that is not false.

    Rearranged block block' → Steady deny c block →
      (standard block' c = .ok (!deny) ↔ standard block c = .ok (!deny))    (standard_rearranged)
-/

namespace CloudAccess.Condition

/-! ## Answers -/

/-- Two outcomes are the same up to the cause of a failure. -/
def SameAnswer {ε α : Type} (o o' : Except ε α) : Prop := ∀ a, o' = .ok a ↔ o = .ok a

theorem SameAnswer.refl {ε α : Type} (o : Except ε α) : SameAnswer o o := fun _ => .rfl

theorem SameAnswer.bind {ε α β : Type} {o o' : Except ε α} {f f' : α → Except ε β}
    (h : SameAnswer o o') (hf : ∀ a, SameAnswer (f a) (f' a)) :
    SameAnswer (o >>= f) (o' >>= f') := by
  intro b
  constructor
  · intro hb
    obtain ⟨a, ha, hb⟩ := bind_eq_ok hb
    rw [(h a).1 ha, ok_bind]
    exact (hf a b).1 hb
  · intro hb
    obtain ⟨a, ha, hb⟩ := bind_eq_ok hb
    rw [(h a).2 ha, ok_bind]
    exact (hf a b).2 hb

section

variable {α : Type} {test test' : α → Except Failure Bool} {l l' : List α}

theorem anyHolds_same (h : ∀ a ∈ l, SameAnswer (test a) (test' a)) :
    SameAnswer (anyHolds test l) (anyHolds test' l) := by
  induction l with
  | nil => exact .refl _
  | cons a rest ih =>
    obtain ⟨ha, hrest⟩ := List.forall_mem_cons.1 h
    refine ha.bind fun hit => ?_
    cases hit with
    | true => exact .refl _
    | false => exact ih hrest

theorem mapM_same (h : ∀ a ∈ l, SameAnswer (test a) (test' a)) :
    SameAnswer (l.mapM test) (l.mapM test') := by
  induction l with
  | nil => exact .refl _
  | cons a rest ih =>
    obtain ⟨ha, hrest⟩ := List.forall_mem_cons.1 h
    rw [List.mapM_cons, List.mapM_cons]
    exact ha.bind fun _ => (ih hrest).bind fun _ => .refl _

/-- A scan finds nothing when every item was tried and failed. -/
theorem anyHolds_eq_false_iff : anyHolds test l = .ok false ↔ ∀ a ∈ l, test a = .ok false := by
  induction l with
  | nil => exact ⟨fun _ a ha => absurd ha List.not_mem_nil, fun _ => rfl⟩
  | cons a rest ih =>
    rw [anyHolds, List.forall_mem_cons, ← ih]
    constructor
    · intro h
      obtain ⟨hit, ha, hrest⟩ := bind_eq_ok h
      cases hit with
      | true => cases hrest
      | false => exact ⟨ha, hrest⟩
    · rintro ⟨ha, hrest⟩
      rw [ha]
      exact hrest

theorem exists_of_anyHolds (h : anyHolds test l = .ok true) : ∃ a ∈ l, test a = .ok true := by
  induction l with
  | nil => cases h
  | cons a rest ih =>
    obtain ⟨hit, ha, hrest⟩ := bind_eq_ok h
    cases hit with
    | true => exact ⟨a, List.mem_cons_self, ha⟩
    | false =>
      obtain ⟨b, hb, htest⟩ := ih hrest
      exact ⟨b, List.mem_cons_of_mem a hb, htest⟩

theorem anyHolds_answers (h : ∀ a ∈ l, ∃ hit, test a = .ok hit) :
    ∃ hit, anyHolds test l = .ok hit := by
  induction l with
  | nil => exact ⟨false, rfl⟩
  | cons a rest ih =>
    obtain ⟨⟨hit, ha⟩, hrest⟩ := List.forall_mem_cons.1 h
    rw [anyHolds, ha]
    cases hit with
    | true => exact ⟨true, rfl⟩
    | false => exact ih hrest

/-- Where no item fails beside a hit, a scan finds the hit. -/
theorem anyHolds_eq_true_iff
    (h : (∃ a ∈ l, test a = .ok true) → ∀ a ∈ l, ∃ hit, test a = .ok hit) :
    anyHolds test l = .ok true ↔ ∃ a ∈ l, test a = .ok true := by
  refine ⟨exists_of_anyHolds, fun hhit => ?_⟩
  obtain ⟨found, hfound⟩ := anyHolds_answers (h hhit)
  cases found with
  | true => exact hfound
  | false =>
    obtain ⟨a, ha, htrue⟩ := hhit
    rw [anyHolds_eq_false_iff.1 hfound a ha] at htrue
    cases htrue

theorem anyHolds_perm (hp : l.Perm l')
    (h : (∃ a ∈ l, test a = .ok true) → ∀ a ∈ l, ∃ hit, test a = .ok hit) :
    SameAnswer (anyHolds test l) (anyHolds test l') := by
  intro hit
  cases hit with
  | false => simp only [anyHolds_eq_false_iff, hp.mem_iff]
  | true =>
    rw [anyHolds_eq_true_iff h, anyHolds_eq_true_iff]
    · simp only [hp.mem_iff]
    · simpa only [hp.mem_iff] using h

end

/-! ## Clauses -/

/-- What an operator as written compares, with its parts, and whether it is negated. -/
def comparison? (operator : String) : Option (Operator × Comparison × Bool) :=
  match Operator.ofText operator with
  | .error _ => none
  | .ok op => (operators.lookup op.base).map fun (comparison, negated) => (op, comparison, negated)

/-- Of the values expected by `Null` only the first one is read. -/
def readsFirst (operator : String) : Bool :=
  match Operator.ofText operator with
  | .error _ => false
  | .ok op => op.base = "Null"

/-- One key of an operator with the values expected of it; neither where there is no object of
them. -/
structure Clause where
  operator : String
  test : Option (String × Json)

namespace Clause

/-- What a clause comes to. -/
def outcome (c : Context) (k : Clause) : Except Failure Bool :=
  match k.test with
  | some (key, expected) => clauseHolds k.operator key expected c
  | none => .error (.clauses k.operator)

/-- For some actual value, some expected value is met and another one cannot be compared. -/
def wavers (c : Context) (k : Clause) : Bool :=
  match comparison? k.operator, k.test with
  | some (_, comparison, _), some (key, expected) =>
    let values := (Fact.json expected).values
    let actual := ((c.fact? key).map Fact.values).getD []
    actual.any fun a =>
      values.any (fun v => (comparison.holds a v).toOption = some true) &&
        values.any fun v => !(comparison.holds a v).isOk
  | _, _ => false

/-- Whether it makes a difference, to an allow or to a deny, what comes first in a clause that
wavers.  It makes none to an allow when the operator is negated, as the clause is not true either
way.  It makes none to a deny when the operator is not negated, as the clause is not false either
way, unless all actual values have to meet an expected one. -/
def heeded (deny : Bool) (k : Clause) : Bool :=
  match comparison? k.operator with
  | none => false
  | some (op, _, negated) =>
    if deny then negated || op.qualifier = some .allValues else !negated

end Clause

section

variable {q : Option Qualifier} {comparison : Comparison} {negated : Bool}
  {expected expected' actual : List Fact}

/-- A clause comes to the same if every actual value does. -/
theorem presentHolds_same
    (h : ∀ a ∈ actual, SameAnswer (anyHolds (comparison.holds a) expected)
      (anyHolds (comparison.holds a) expected')) :
    SameAnswer (presentHolds q comparison negated expected actual)
      (presentHolds q comparison negated expected' actual) := by
  have hpair : SameAnswer (anyPair comparison expected actual)
      (anyPair comparison expected' actual) := anyHolds_same h
  cases q with
  | none => exact hpair.bind fun _ => .refl _
  | some qualifier =>
    cases qualifier with
    | anyValue => exact hpair.bind fun _ => .refl _
    | allValues => exact (mapM_same h).bind fun _ => .refl _

/-- No hit among the items is told by trying them all. -/
theorem mapM_eq_none {α : Type} {test : α → Except Failure Bool} {l : List α} :
    (do let hits ← l.mapM test; return !hits.any id : Except Failure Bool) = .ok true ↔
      ∀ a ∈ l, test a = .ok false := by
  induction l with
  | nil => exact ⟨fun _ a ha => absurd ha List.not_mem_nil, fun _ => rfl⟩
  | cons a rest ih =>
    rw [List.forall_mem_cons, ← ih, List.mapM_cons]
    constructor
    · intro h
      obtain ⟨hits, hall, hnone⟩ := bind_eq_ok h
      obtain ⟨hit, ha, hall⟩ := bind_eq_ok hall
      obtain ⟨later, hrest, hcons⟩ := bind_eq_ok hall
      obtain rfl := Except.ok.inj hcons
      replace hnone : (!(hit :: later).any id) = true := Except.ok.inj hnone
      cases hit with
      | true => cases hnone
      | false =>
        rw [hrest]
        exact ⟨ha, congrArg Except.ok hnone⟩
    · rintro ⟨ha, hnone⟩
      obtain ⟨later, hrest, hnone⟩ := bind_eq_ok hnone
      rw [ha, ok_bind, hrest]
      exact hnone

/-- What a clause comes to when nothing is met, whatever the order of what is expected. -/
theorem presentHolds_unmet (hq : q = some .allValues → negated = true) :
    presentHolds q comparison negated expected actual = .ok negated ↔
      ∀ a ∈ actual, ∀ v ∈ expected, comparison.holds a v = .ok false := by
  have hpair : (do let hit ← anyPair comparison expected actual; return hit != negated :
      Except Failure Bool) = .ok negated ↔
      ∀ a ∈ actual, ∀ v ∈ expected, comparison.holds a v = .ok false := by
    simp only [← anyHolds_eq_false_iff]
    show anyPair comparison expected actual >>= _ = .ok negated ↔
      anyPair comparison expected actual = .ok false
    cases anyPair comparison expected actual with
    | error e => exact ⟨fun h => (by cases h), fun h => (by cases h)⟩
    | ok hit =>
      show Except.ok (hit != negated) = Except.ok negated ↔ _
      cases hit <;> cases negated <;> simp
  cases q with
  | none => exact hpair
  | some qualifier =>
    cases qualifier with
    | anyValue => exact hpair
    | allValues =>
      obtain rfl := hq rfl
      exact mapM_eq_none.trans (forall₂_congr fun a _ => anyHolds_eq_false_iff)

end

/-! ## Blocks in another order -/

/-- The same expected values, a list of them in another order. -/
def SameValues (operator : String) (expected expected' : Json) : Prop :=
  expected' = expected ∨ ∃ items items', expected = .arr items ∧ expected' = .arr items' ∧
    items.Perm items' ∧ (readsFirst operator = true → items'.head? = items.head?)

/-- The same members in another order, with values that are related name by name. -/
def SameMembers (R : String → Json → Json → Prop) (ms ms' : Json.Members) : Prop :=
  ∃ ns, ms.Perm ns ∧ List.Forall₂ (fun m m' => m'.1 = m.1 ∧ R m.1 m.2 m'.2) ns ms'

/-- The same clauses of an operator in another order. -/
def SameClauses (operator : String) (body body' : Json) : Prop :=
  body' = body ∨ ∃ ms ms', body = .obj ms ∧ body' = .obj ms' ∧
    SameMembers (fun _ => SameValues operator) ms ms'

/-- A block with the same operators in another order. -/
def Rearranged (block block' : Json) : Prop :=
  ∃ ms ms', block = .obj ms ∧ block' = .obj ms' ∧ SameMembers SameClauses ms ms'

/-- The clauses of a block. -/
def clausesOf : Json → List Clause
  | .obj ms => ms.flatMap fun (operator, body) => match body with
    | .obj clauses => clauses.map fun clause => ⟨operator, some clause⟩
    | _ => [⟨operator, none⟩]
  | _ => []

/-- The same clause with its expected values in another order. -/
inductive Clause.Same : Clause → Clause → Prop
  | unreadable (operator : String) : Same ⟨operator, none⟩ ⟨operator, none⟩
  | values {operator key : String} {expected expected' : Json} :
      SameValues operator expected expected' →
      Same ⟨operator, some (key, expected)⟩ ⟨operator, some (key, expected')⟩

/-- The order of a block does not matter to an allow or to a deny.  To both it matters if a clause
wavers that is heeded; to a deny also if some clause is false, and another one cannot be decided
or may come to be undecided. -/
structure Steady (deny : Bool) (c : Context) (block : Json) : Prop where
  values : ∀ k ∈ clausesOf block, k.heeded deny = true → k.wavers c = false
  clauses : deny = true → (∃ k ∈ clausesOf block, k.outcome c = .ok false) →
    ∀ k ∈ clausesOf block, k.wavers c = false ∧ ∃ hit, k.outcome c = .ok hit

section

variable {c : Context} {operator key : String} {expected expected' : Json}

/-- A clause with other values comes to the same if it does so wherever values are compared. -/
theorem clauseHolds_congr (hv : SameValues operator expected expected') {hit : Bool}
    (h : ∀ op comparison negated fact, comparison? operator = some (op, comparison, negated) →
      c.fact? key = some fact →
      (presentHolds op.qualifier comparison negated (Fact.json expected').values fact.values =
        .ok hit ↔
      presentHolds op.qualifier comparison negated (Fact.json expected).values fact.values =
        .ok hit)) :
    clauseHolds operator key expected' c = .ok hit ↔
      clauseHolds operator key expected c = .ok hit := by
  unfold clauseHolds
  unfold comparison? at h
  cases hop : Operator.ofText operator with
  | error e => exact .rfl
  | ok op =>
    rw [hop] at h
    simp only [ok_bind]
    split
    · next hnull =>
      have hfirst : readsFirst operator = true := by simp [readsFirst, hop, hnull]
      rcases hv with rfl | ⟨items, items', rfl, rfl, -, hhead⟩
      · exact .rfl
      · have hhead := hhead hfirst
        cases items with
        | nil =>
          cases items' with
          | nil => exact .rfl
          | cons v' rest' => cases hhead
        | cons v rest =>
          cases items' with
          | nil => cases hhead
          | cons v' rest' =>
            obtain rfl : v' = v := Option.some.inj hhead
            exact .rfl
    · cases hlookup : operators.lookup op.base with
      | none => exact .rfl
      | some found =>
        obtain ⟨comparison, negated⟩ := found
        cases hf : c.fact? key with
        | none => exact .rfl
        | some fact => exact h op comparison negated fact (by simp [hlookup]) hf

theorem SameValues.perm (hv : SameValues operator expected expected') :
    (Fact.json expected).values.Perm (Fact.json expected').values := by
  rcases hv with rfl | ⟨items, items', rfl, rfl, hp, -⟩
  · exact .refl _
  · exact hp.map Fact.json

/-- No expected value fails beside one that is met, for an actual value of a clause that does not
waver. -/
theorem Clause.answers_of_not_wavers
    (hw : Clause.wavers c ⟨operator, some (key, expected)⟩ = false)
    {op : Operator} {comparison : Comparison} {negated : Bool} {fact : Fact}
    (hop : comparison? operator = some (op, comparison, negated)) (hf : c.fact? key = some fact)
    {a : Fact} (ha : a ∈ fact.values)
    (hmet : ∃ v ∈ (Fact.json expected).values, comparison.holds a v = .ok true) :
    ∀ v ∈ (Fact.json expected).values, ∃ hit, comparison.holds a v = .ok hit := by
  intro v hv
  cases hc : comparison.holds a v with
  | ok hit => exact ⟨hit, rfl⟩
  | error e =>
    have hwavers : Clause.wavers c ⟨operator, some (key, expected)⟩ = true := by
      simp only [wavers, hop, hf, Option.map_some, Option.getD_some, List.any_eq_true,
        Bool.and_eq_true]
      obtain ⟨w, hw, hmet⟩ := hmet
      refine ⟨a, ha, ⟨w, hw, ?_⟩, v, hv, ?_⟩
      · simp [hmet, Except.toOption]
      · simp [hc, Except.isOk, Except.toBool]
    rw [hw] at hwavers
    cases hwavers

theorem Clause.of_not_heeded {deny : Bool} {k : Clause} (h : k.heeded deny = false)
    {op : Operator} {comparison : Comparison} {negated : Bool}
    (hop : comparison? k.operator = some (op, comparison, negated)) :
    negated = !deny ∧ (op.qualifier = some .allValues → negated = true) := by
  simp only [heeded, hop] at h
  cases deny with
  | true =>
    rw [if_pos rfl, Bool.or_eq_false_iff, decide_eq_false_iff_not] at h
    exact ⟨h.1, fun hall => absurd hall h.2⟩
  | false =>
    rw [if_neg Bool.false_ne_true, Bool.not_eq_false'] at h
    exact ⟨h, fun _ => h⟩

variable {k k' : Clause} (h : k.Same k')

include h

/-- A clause that does not waver comes to the same in another order. -/
theorem Clause.Same.outcome (hw : k.wavers c = false) :
    SameAnswer (k.outcome c) (k'.outcome c) := by
  cases h with
  | unreadable operator => exact .refl _
  | values hv =>
    intro hit
    refine clauseHolds_congr hv fun op comparison negated fact hop hf => ?_
    refine presentHolds_same (fun a ha => ?_) hit
    exact anyHolds_perm hv.perm (answers_of_not_wavers hw hop hf ha)

/-- A clause that is not heeded holds, for an allow, or is false, for a deny, in any order or in
none. -/
theorem Clause.Same.outcome_of_not_heeded {deny : Bool} (hk : k.heeded deny = false) :
    k'.outcome c = .ok (!deny) ↔ k.outcome c = .ok (!deny) := by
  cases h with
  | unreadable operator => exact .rfl
  | values hv =>
    refine clauseHolds_congr hv fun op comparison negated fact hop hf => ?_
    obtain ⟨rfl, hall⟩ := of_not_heeded hk hop
    rw [presentHolds_unmet hall, presentHolds_unmet hall]
    simp only [hv.perm.mem_iff]

end

/-! ## Blocks -/

theorem Clause.Same.refl (k : Clause) : k.Same k := by
  obtain ⟨operator, test⟩ := k
  cases test with
  | none => exact .unreadable operator
  | some test => exact .values (.inl rfl)

/-- Every clause has a partner in a block in another order. -/
theorem Rearranged.clauses {block block' : Json} (h : Rearranged block block') :
    Partnered Clause.Same (clausesOf block) (clausesOf block') := by
  obtain ⟨ms, ms', rfl, rfl, ns, hp, hpaired⟩ := h
  refine (Partnered.of_perm hp hpaired).flatMap fun m m' hm => ?_
  obtain ⟨operator, body⟩ := m
  obtain ⟨operator', body'⟩ := m'
  obtain ⟨hoperator, hclauses⟩ := hm
  obtain rfl : operator' = operator := hoperator
  rcases hclauses with hsame | ⟨clauses, clauses', rfl, rfl, inner, hpinner, hinner⟩
  · obtain rfl : body' = body := hsame
    exact .refl Clause.Same.refl _
  · refine (Partnered.of_perm hpinner hinner).map fun m m' hm => ?_
    obtain ⟨key, expected⟩ := m
    obtain ⟨key', expected'⟩ := m'
    obtain ⟨hkey, hvalues⟩ := hm
    obtain rfl : key' = key := hkey
    exact .values hvalues

/-- A clause is found untrue. -/
def Clause.fails (c : Context) (k : Clause) : Except Failure Bool := (k.outcome c).map not

section

variable {c : Context}

theorem anyHolds_append {α : Type} (test : α → Except Failure Bool) (l l' : List α) :
    anyHolds test (l ++ l') =
      (anyHolds test l >>= fun hit => if hit then .ok true else anyHolds test l') := by
  induction l with
  | nil => rfl
  | cons a rest ih =>
    rw [List.cons_append, anyHolds, anyHolds, ih]
    cases test a with
    | error e => rfl
    | ok hit => cases hit <;> rfl

theorem clausesHold_eq (operator : String) (clauses : Json.Members) :
    clausesHold operator c clauses =
      (anyHolds (Clause.fails c) (clauses.map fun clause => ⟨operator, some clause⟩)).map not := by
  induction clauses with
  | nil => rfl
  | cons clause rest ih =>
    obtain ⟨key, expected⟩ := clause
    rw [clausesHold, ih, List.map_cons, anyHolds]
    simp only [Clause.fails, Clause.outcome]
    cases clauseHolds operator key expected c with
    | error e => rfl
    | ok hit => cases hit <;> rfl

/-- A block holds unless some clause is found untrue. -/
theorem operatorsHold_eq (ms : Json.Members) :
    operatorsHold c ms = (anyHolds (Clause.fails c) (clausesOf (.obj ms))).map not := by
  induction ms with
  | nil => rfl
  | cons m rest ih =>
    obtain ⟨operator, body⟩ := m
    have hrest : clausesOf (.obj ((operator, body) :: rest)) =
        (match body with
          | .obj clauses => clauses.map fun clause => ⟨operator, some clause⟩
          | _ => [⟨operator, none⟩]) ++ clausesOf (.obj rest) := rfl
    rw [hrest, anyHolds_append]
    cases body with
    | obj clauses =>
      rw [operatorsHold, ih, clausesHold_eq]
      simp only
      cases anyHolds (Clause.fails c) (clauses.map fun clause => ⟨operator, some clause⟩) with
      | error e => rfl
      | ok hit => cases hit <;> rfl
    | _ => rfl

theorem holds_obj (ms : Json.Members) : holds (.obj ms) c = operatorsHold c ms := by
  cases ms <;> rfl

theorem map_not_eq_ok {o : Except Failure Bool} {hit : Bool} :
    o.map not = .ok hit ↔ o = .ok (!hit) := by
  cases o with
  | error e => exact ⟨fun h => (by cases h), fun h => (by cases h)⟩
  | ok b =>
    show Except.ok (!b) = Except.ok hit ↔ _
    cases b <;> cases hit <;> simp

/-- A block is true when all its clauses are. -/
theorem holds_eq_true_iff {ms : Json.Members} : holds (.obj ms) c = .ok true ↔
    ∀ k ∈ clausesOf (.obj ms), k.outcome c = .ok true := by
  rw [holds_obj, operatorsHold_eq, map_not_eq_ok]
  refine anyHolds_eq_false_iff.trans (forall₂_congr fun k _ => ?_)
  exact map_not_eq_ok

/-- A block is false when a clause is, unless some clause of it cannot be decided. -/
theorem holds_eq_false_iff {ms : Json.Members}
    (h : (∃ k ∈ clausesOf (.obj ms), k.outcome c = .ok false) →
      ∀ k ∈ clausesOf (.obj ms), ∃ hit, k.outcome c = .ok hit) :
    holds (.obj ms) c = .ok false ↔ ∃ k ∈ clausesOf (.obj ms), k.outcome c = .ok false := by
  have hfails (k : Clause) : k.fails c = .ok true ↔ k.outcome c = .ok false := map_not_eq_ok
  rw [holds_obj, operatorsHold_eq, map_not_eq_ok]
  refine (anyHolds_eq_true_iff fun hex k hk => ?_).trans (by simp only [hfails])
  simp only [hfails] at hex
  obtain ⟨hit, hk⟩ := h hex k hk
  exact ⟨!hit, by rw [Clause.fails, hk]; rfl⟩

end

/-- A block has no other context than the facts that it asks for. -/
theorem standard_congr {c c' : Context} (h : ∀ key, c'.fact? key = c.fact? key) (block : Json) :
    standard block c' = standard block c := by
  have hfails : Clause.fails c' = Clause.fails c := by
    funext k
    unfold Clause.fails Clause.outcome clauseHolds
    simp only [h]
  unfold standard
  cases block with
  | obj ms => rw [holds_obj, holds_obj, operatorsHold_eq, operatorsHold_eq, hfails]
  | _ => rfl

/-! ## Top theorem -/

/-- In a steady block no order makes a difference to what a clause is asked for. -/
theorem Steady.outcome {deny : Bool} {c : Context} {block : Json} (hs : Steady deny c block)
    {k k' : Clause} (hk : k ∈ clausesOf block) (h : k.Same k') :
    k'.outcome c = .ok (!deny) ↔ k.outcome c = .ok (!deny) := by
  cases hheeded : k.heeded deny with
  | true => exact h.outcome (hs.values k hk hheeded) _
  | false => exact h.outcome_of_not_heeded hheeded

section

variable {c : Context} {ms ms' : Json.Members}
  (h : Partnered Clause.Same (clausesOf (.obj ms)) (clausesOf (.obj ms')))

include h

theorem holds_true_rearranged (hs : Steady false c (.obj ms)) :
    holds (.obj ms') c = .ok true ↔ holds (.obj ms) c = .ok true := by
  rw [holds_eq_true_iff, holds_eq_true_iff]
  constructor
  · intro hall k hk
    obtain ⟨k', hk', hkk⟩ := h.1 k hk
    exact (hs.outcome hk hkk).1 (hall k' hk')
  · intro hall k' hk'
    obtain ⟨k, hk, hkk⟩ := h.2 k' hk'
    exact (hs.outcome hk hkk).2 (hall k hk)

theorem holds_false_rearranged (hs : Steady true c (.obj ms)) :
    holds (.obj ms') c = .ok false ↔ holds (.obj ms) c = .ok false := by
  have hback (hex : ∃ k' ∈ clausesOf (.obj ms'), k'.outcome c = .ok false) :
      ∃ k ∈ clausesOf (.obj ms), k.outcome c = .ok false := by
    obtain ⟨k', hk', hfalse⟩ := hex
    obtain ⟨k, hk, hkk⟩ := h.2 k' hk'
    exact ⟨k, hk, (hs.outcome hk hkk).1 hfalse⟩
  rw [holds_eq_false_iff fun hex k hk => (hs.clauses rfl hex k hk).2, holds_eq_false_iff]
  · refine ⟨hback, fun ⟨k, hk, hfalse⟩ => ?_⟩
    obtain ⟨k', hk', hkk⟩ := h.1 k hk
    exact ⟨k', hk', (hs.outcome hk hkk).2 hfalse⟩
  · -- no clause wavers beside the false one, so each of them answers in this order too
    intro hex k' hk'
    obtain ⟨k, hk, hkk⟩ := h.2 k' hk'
    obtain ⟨hsteady, hit, hanswer⟩ := hs.clauses rfl (hback hex) k hk
    exact ⟨hit, (hkk.outcome hsteady hit).2 hanswer⟩

end

/-- **The order of a steady block does not matter.**  To an allow it does not matter whether the
block is true, and to a deny whether it is false. -/
theorem standard_rearranged {deny : Bool} {c : Context} {block block' : Json}
    (h : Rearranged block block') (hs : Steady deny c block) :
    standard block' c = .ok (!deny) ↔ standard block c = .ok (!deny) := by
  have hanswer (block : Json) : standard block c = .ok (!deny) ↔ holds block c = .ok (!deny) := by
    refine ⟨mapError_eq_ok, fun hb => ?_⟩
    rw [standard, hb]
    rfl
  have hpartners := h.clauses
  obtain ⟨ms, ms', rfl, rfl, -⟩ := h
  rw [hanswer, hanswer]
  cases deny with
  | false => exact holds_true_rearranged hpartners hs
  | true => exact holds_false_rearranged hpartners hs

/-! ## Blocks whose order matters -/

theorem SameMembers.of_perm {R : String → Json → Json → Prop} (hR : ∀ name v, R name v v)
    {ms ms' : Json.Members} (hp : ms.Perm ms') : SameMembers R ms ms' :=
  ⟨ms', hp, List.forall₂_same.2 fun m _ => ⟨rfl, hR m.1 m.2⟩⟩

/-- Every clause of a block comes first in some order. -/
theorem exists_rearranged_first {block : Json} {k : Clause} (hk : k ∈ clausesOf block) :
    ∃ block' rest, Rearranged block block' ∧ clausesOf block' = k :: rest := by
  cases block with
  | obj ms =>
    obtain ⟨⟨operator, body⟩, hm, hbody⟩ := List.mem_flatMap.1 hk
    obtain ⟨before, after, rfl⟩ := List.append_of_mem hm
    have hfront : (before ++ (operator, body) :: after).Perm
        ((operator, body) :: (before ++ after)) := List.perm_middle
    cases body with
    | obj clauses =>
      obtain ⟨clause, hclause, rfl⟩ := List.mem_map.1 hbody
      obtain ⟨earlier, later, rfl⟩ := List.append_of_mem hclause
      have hinner : SameMembers (fun _ => SameValues operator) (earlier ++ clause :: later)
          (clause :: (earlier ++ later)) := .of_perm (fun _ _ => .inl rfl) List.perm_middle
      refine ⟨.obj ((operator, .obj (clause :: (earlier ++ later))) :: (before ++ after)), _,
        ⟨_, _, rfl, rfl, _, hfront, .cons ⟨rfl, .inr ⟨_, _, rfl, rfl, hinner⟩⟩ ?_⟩, rfl⟩
      exact List.forall₂_same.2 fun m _ => ⟨rfl, .inl rfl⟩
    | _ =>
      obtain rfl := List.mem_singleton.1 hbody
      exact ⟨_, _, ⟨_, _, rfl, rfl, .of_perm (fun _ _ => .inl rfl) hfront⟩, rfl⟩
  | _ => exact absurd hk List.not_mem_nil

/-- A first clause that is not true settles a block. -/
theorem holds_of_first {c : Context} {block : Json} {k : Clause} {rest : List Clause}
    (h : clausesOf block = k :: rest) (hk : k.outcome c ≠ .ok true) :
    holds block c = k.outcome c := by
  cases block with
  | obj ms =>
    rw [holds_obj, operatorsHold_eq, h, anyHolds, Clause.fails]
    cases ho : k.outcome c with
    | error e => rfl
    | ok hit =>
      cases hit with
      | true => exact absurd ho hk
      | false => rfl
  | _ => cases h

/-- **Beside a false clause, one that cannot be decided makes the order matter to a deny.** -/
theorem exists_rearranged_undecided {c : Context} {block : Json}
    (hfalse : ∃ k ∈ clausesOf block, k.outcome c = .ok false)
    (hundecided : ∃ k ∈ clausesOf block, ∃ e, k.outcome c = .error e) :
    ∃ block' block'', Rearranged block block' ∧ Rearranged block block'' ∧
      standard block' c = .ok false ∧ standard block'' c ≠ .ok false := by
  obtain ⟨k, hk, hfalse⟩ := hfalse
  obtain ⟨u, hu, e, hundecided⟩ := hundecided
  obtain ⟨block', _, h, hfirst⟩ := exists_rearranged_first hk
  obtain ⟨block'', _, h', hfirst'⟩ := exists_rearranged_first hu
  refine ⟨block', block'', h, h', ?_, ?_⟩
  · rw [standard, holds_of_first hfirst (by rw [hfalse]; nofun), hfalse]
    rfl
  · rw [standard, holds_of_first hfirst' (by rw [hundecided]; nofun), hundecided]
    nofun

end CloudAccess.Condition
