import CloudAccess.Proofs.Condition.Order

/-!
# What the modifiers of an operator do

An operator in writing is a name with up to three modifiers: a set qualifier before it, `IfExists`
after it, and a negation in the name itself.  `Operator.ofText` takes the qualifier and the ending
off again (`Operator.ofText_written`), and what a clause of a supported operator comes to depends
on the parts only (`clauseHolds_written`).

* A negated operator says the opposite of its partner among the `opposites`, and `IfExists` adds
  that a missing fact will do, and nothing else (`clauseHolds_modified`).
* A set qualifier asks the plain operator about each actual value by itself.  `ForAllValues` wants
  all of them, and so does `ForAnyValue` if the operator is negated; else it wants one of them
  (`clauseHolds_quantified`).
-/

namespace CloudAccess.Condition

/-! ## How operators are written -/

/-- What stands before a qualified operator. -/
def Qualifier.lead : Qualifier → String
  | anyValue => "ForAnyValue:"
  | allValues => "ForAllValues:"

namespace Operator

/-- An operator in writing, without its qualifier. -/
def stem (op : Operator) : String := op.base ++ if op.ifExists then "IfExists" else ""

/-- An operator in writing. -/
def written (op : Operator) : String := op.qualifier.elim "" Qualifier.lead ++ op.stem

@[simp] theorem written_plain (name : String) : written ⟨none, name, false⟩ = name := by
  simp [written, stem]

@[simp] theorem written_qualified (q : Qualifier) (name : String) :
    written ⟨some q, name, false⟩ = q.lead ++ name := by
  simp [written, stem]

end Operator

/-- A name that cannot be mistaken for one with a qualifier or an ending. -/
def Bare (name : String) : Prop := ':' ∉ name.toList ∧ ¬ "IfExists".toList <:+ name.toList

instance (name : String) : Decidable (Bare name) := by unfold Bare; infer_instance

/-- The negated operators, each after the one that it negates. -/
def opposites : List (String × String) := [
  ("StringEquals", "StringNotEquals"),
  ("StringEqualsIgnoreCase", "StringNotEqualsIgnoreCase"),
  ("StringLike", "StringNotLike"),
  ("ArnEquals", "ArnNotEquals"),
  ("ArnLike", "ArnNotLike"),
  ("IpAddress", "NotIpAddress"),
  ("NumericEquals", "NumericNotEquals"),
  ("DateEquals", "DateNotEquals")]

/-! ## Reading what is written -/

theorem splitIfExists_append (cs : List Char) :
    splitIfExists (cs ++ "IfExists".toList) = (cs, true) := by
  unfold splitIfExists
  rw [if_pos (List.isSuffixOf_iff_suffix.2 (List.suffix_append _ _)), List.length_append,
    Nat.add_sub_cancel, List.take_left]

theorem splitIfExists_of_not_suffix {cs : List Char} (h : ¬ "IfExists".toList <:+ cs) :
    splitIfExists cs = (cs, false) := by
  unfold splitIfExists
  rw [if_neg (mt List.isSuffixOf_iff_suffix.1 h)]

namespace Operator

variable {op : Operator} (h : Bare op.base)

include h

theorem splitIfExists_stem : splitIfExists op.stem.toList = (op.base.toList, op.ifExists) := by
  unfold stem
  cases op.ifExists with
  | true => rw [if_pos rfl, String.toList_append, splitIfExists_append]
  | false => simpa using splitIfExists_of_not_suffix h.2

theorem not_mem_stem : ':' ∉ op.stem.toList := by
  rw [stem, String.toList_append, List.mem_append]
  refine not_or.2 ⟨h.1, ?_⟩
  cases op.ifExists <;> decide

/-- An operator is read as it is written. -/
theorem ofText_written : ofText op.written = .ok op := by
  have hstem := splitIfExists_stem h
  have hcolon := not_mem_stem h
  unfold ofText written
  cases hq : op.qualifier with
  | none =>
    rw [Option.elim_none, String.empty_append, Text.cut?_of_not_mem hcolon]
    simp only [hstem, String.ofList_toList, ← hq]
  | some q =>
    have hlead : q.lead.toList = q.lead.toList.dropLast ++ [':'] := by cases q <;> rfl
    have hname : ':' ∉ q.lead.toList.dropLast := by cases q <;> decide
    rw [Option.elim_some, String.toList_append, hlead, List.append_assoc, List.singleton_append,
      Text.cut?_append hname]
    cases q <;> simp [hstem, Qualifier.lead, ← hq]

end Operator

/-! ## Clauses of supported operators -/

theorem bare_of_mem : ∀ o ∈ operators, Bare o.1 := by decide

theorem lookup_of_mem : ∀ o ∈ operators, operators.lookup o.1 = some o.2 := by decide

theorem comparison?_eq_some_iff {operator : String} {op : Operator} {comparison : Comparison}
    {negated : Bool} : comparison? operator = some (op, comparison, negated) ↔
      Operator.ofText operator = .ok op ∧
        operators.lookup op.base = some (comparison, negated) := by
  unfold comparison?
  cases Operator.ofText operator with
  | error e => simp
  | ok op' =>
    simp only [Option.map_eq_some_iff, Except.ok.injEq]
    constructor
    · rintro ⟨⟨comparison', negated'⟩, hlookup, heq⟩
      cases heq
      exact ⟨rfl, hlookup⟩
    · rintro ⟨rfl, hlookup⟩
      exact ⟨_, hlookup, rfl⟩

/-- What a clause comes to when its operator compares. -/
theorem clauseHolds_of_comparison {operator : String} {op : Operator} {comparison : Comparison}
    {negated : Bool} (h : comparison? operator = some (op, comparison, negated)) (key : String)
    (expected : Json) (c : Context) : clauseHolds operator key expected c =
      match c.fact? key with
      | none => .ok (absentHolds op negated)
      | some f =>
        presentHolds op.qualifier comparison negated (Fact.json expected).values f.values := by
  obtain ⟨hop, hlookup⟩ := comparison?_eq_some_iff.1 h
  have hnull : op.base ≠ "Null" := by
    intro hbase
    have hnone : operators.lookup "Null" = none := by decide
    rw [hbase, hnone] at hlookup
    cases hlookup
  unfold clauseHolds
  rw [hop, ok_bind]
  simp only [hnull, if_false, hlookup]
  cases c.fact? key <;> rfl

section

variable {name : String} {comparison : Comparison} {negated : Bool}
  (h : (name, comparison, negated) ∈ operators)

include h

/-- What a clause of a supported operator comes to, by the parts of the operator. -/
theorem clauseHolds_written (q : Option Qualifier) (ifExists : Bool) (key : String)
    (expected : Json) (c : Context) :
    clauseHolds (Operator.written ⟨q, name, ifExists⟩) key expected c =
      match c.fact? key with
      | none => .ok (absentHolds ⟨q, name, ifExists⟩ negated)
      | some f => presentHolds q comparison negated (Fact.json expected).values f.values :=
  clauseHolds_of_comparison
    (comparison?_eq_some_iff.2 ⟨Operator.ofText_written (bare_of_mem _ h), lookup_of_mem _ h⟩)
    key expected c

/-- A plain operator asks whether some pair of values is met, or whether none is. -/
theorem clauseHolds_plain (key : String) (expected : Json) (c : Context) :
    clauseHolds name key expected c =
      match c.fact? key with
      | none => .ok negated
      | some f => (anyPair comparison (Fact.json expected).values f.values).map (· != negated) := by
  rw [← Operator.written_plain name, clauseHolds_written h]
  cases c.fact? key <;> rfl

end

/-! ## Negation and missing facts -/

theorem mem_of_opposites : ∀ o ∈ opposites, ∃ comparison ∈ operators.map (·.2.1),
    (o.1, comparison, false) ∈ operators ∧ (o.2, comparison, true) ∈ operators := by
  decide

/-- No negated operator is without a partner. -/
theorem opposites_complete :
    opposites.map (·.2) = (operators.filter (·.2.2)).map (·.1) := by decide

/-- **Modifiers act alike on all operators.**  A negated operator is true where its partner is
false and the other way round, and neither can be decided where the other one cannot.  With
`IfExists`, whatever the qualifier, an operator is true of a missing fact, and otherwise comes to
what it comes to without. -/
theorem clauseHolds_modified (key : String) (expected : Json) (c : Context) :
    (∀ o ∈ opposites,
      clauseHolds o.2 key expected c = (clauseHolds o.1 key expected c).map not) ∧
    ∀ o ∈ operators, ∀ q : Option Qualifier,
      clauseHolds (Operator.written ⟨q, o.1, true⟩) key expected c =
        if (c.fact? key).isNone then .ok true
        else clauseHolds (Operator.written ⟨q, o.1, false⟩) key expected c := by
  constructor
  · rintro ⟨positive, negative⟩ ho
    obtain ⟨comparison, -, hpositive, hnegative⟩ := mem_of_opposites _ ho
    rw [clauseHolds_plain hpositive, clauseHolds_plain hnegative]
    cases c.fact? key with
    | none => rfl
    | some f =>
      dsimp only
      cases anyPair comparison (Fact.json expected).values f.values with
      | error e => rfl
      | ok hit => cases hit <;> rfl
  · rintro ⟨name, comparison, negated⟩ ho q
    rw [clauseHolds_written ho, clauseHolds_written ho]
    cases c.fact? key with
    | none =>
      cases q with
      | none => rfl
      | some q => cases q <;> rfl
    | some f => rfl

/-- A request from a region. -/
def fromRegion (region : String) : Context :=
  { Context.empty with extra := [("aws:RequestedRegion", .str region)] }

/-- A negated operator about the region, and one with an ending that cannot read it. -/
theorem clauseHolds_modified_region :
    let c := fromRegion "eu-west-1"
    ("StringLike", "StringNotLike") ∈ opposites ∧
      clauseHolds "StringLike" "aws:RequestedRegion" "eu-*" c = .ok true ∧
      clauseHolds "StringNotLike" "aws:RequestedRegion" "eu-*" c = .ok false ∧
      ("NumericLessThan", Comparison.number .lt, false) ∈ operators ∧
      clauseHolds "ForAnyValue:NumericLessThanIfExists" "aws:RequestedRegion" (.int 5) c =
        clauseHolds "ForAnyValue:NumericLessThan" "aws:RequestedRegion" (.int 5) c ∧
      clauseHolds "ForAnyValue:NumericLessThanIfExists" "aws:RequestedRegion" (.int 5) .empty =
        .ok true := by
  intro c
  have hopposite : ("StringLike", "StringNotLike") ∈ opposites := by decide
  have hoperator : ("NumericLessThan", Comparison.number .lt, false) ∈ operators := by decide
  have hlike : clauseHolds "StringLike" "aws:RequestedRegion" "eu-*" c = .ok true := by rfl
  have hnegated := (clauseHolds_modified "aws:RequestedRegion" "eu-*" c).1 _ hopposite
  rw [hlike] at hnegated
  have hwritten (ifExists : Bool) :
      Operator.written ⟨some .anyValue, "NumericLessThan", ifExists⟩ =
        if ifExists then "ForAnyValue:NumericLessThanIfExists"
        else "ForAnyValue:NumericLessThan" := by
    cases ifExists <;> decide
  have hexists (c : Context) :=
    (clauseHolds_modified "aws:RequestedRegion" (.int 5) c).2 _ hoperator (some .anyValue)
  simp only [hwritten, if_true, Bool.false_eq_true, if_false] at hexists
  exact ⟨hopposite, hlike, hnegated, hoperator, hexists c, hexists .empty⟩

/-! ## Set qualifiers -/

/-- Where every item answers, a scan answers whether some item passes. -/
theorem anyHolds_eq_any {α : Type} {test : α → Except Failure Bool} {p : α → Bool} {l : List α}
    (h : ∀ a ∈ l, test a = .ok (p a)) : anyHolds test l = .ok (l.any p) := by
  induction l with
  | nil => rfl
  | cons a rest ih =>
    obtain ⟨ha, hrest⟩ := List.forall_mem_cons.1 h
    rw [anyHolds, ha, ok_bind, ih hrest, List.any_cons]
    cases p a <;> rfl

section

variable {comparison : Comparison} {expected actual : List Fact} {met : Fact → Bool}
  (h : ∀ a ∈ actual, anyHolds (comparison.holds a) expected = .ok (met a))

include h

/-- Where values can be compared, `ForAllValues` asks for every actual value by itself. -/
theorem presentHolds_allValues (negated : Bool) :
    presentHolds (some .allValues) comparison negated expected actual =
      .ok (actual.all fun a => met a != negated) := by
  show (do
    let hits ← actual.mapM fun a => anyHolds (comparison.holds a) expected
    return if negated then !hits.any id else hits.all id) = _
  rw [mapM_eq_map h, ok_bind]
  cases negated with
  | false => simp [List.all_map, pure, Except.pure]
  | true => simp [List.any_map, pure, Except.pure, List.not_any_eq_all_not]

/-- Where values can be compared, `ForAnyValue` asks for an actual value that is met, or for none
if the operator is negated. -/
theorem presentHolds_anyValue (negated : Bool) :
    presentHolds (some .anyValue) comparison negated expected actual =
      .ok (actual.any met != negated) := by
  show (do
    let hit ← anyPair comparison expected actual
    return hit != negated) = _
  rw [anyPair, anyHolds_eq_any h]
  rfl

end

theorem values_of_kind {v : Json} (h : v.kind ≠ .arr) : (Fact.json v).values = [.json v] := by
  cases v with
  | arr items => exact absurd rfl h
  | _ => rfl

section

variable {name : String} {comparison : Comparison} {negated : Bool}
  (h : (name, comparison, negated) ∈ operators) {key : String} {expected : Json} {c : Context}

include h

/-- A plain operator says of a single value whether it is met, or that it is not. -/
theorem clauseHolds_single {a : Json} (hkind : a.kind ≠ .arr)
    (hfact : c.fact? key = some (.json a)) : clauseHolds name key expected c =
      (anyHolds (comparison.holds (.json a)) (Fact.json expected).values).map (· != negated) := by
  rw [clauseHolds_plain h, hfact]
  dsimp only
  rw [values_of_kind hkind, anyPair, anyHolds]
  cases anyHolds (comparison.holds (.json a)) (Fact.json expected).values with
  | error e => rfl
  | ok hit => cases hit <;> rfl

theorem clauseHolds_list {items : List Json} (hfact : c.fact? key = some (.json (.arr items)))
    (q : Qualifier) : clauseHolds (q.lead ++ name) key expected c =
      presentHolds (some q) comparison negated (Fact.json expected).values
        (items.map Fact.json) := by
  rw [← Operator.written_qualified, clauseHolds_written h, hfact]
  rfl

/-- **Set qualifiers ask about each actual value by itself.**  With a fact that is a list of single
values, all of which can be compared with what is expected, `ForAllValues` holds if the plain
operator holds of each value by itself.  `ForAnyValue` holds if the plain operator holds of one
value by itself, unless it is negated: then it has to hold of each value. -/
theorem clauseHolds_quantified {items : List Json} {single : Json → Context}
    (hfact : c.fact? key = some (.json (.arr items)))
    (hsingle : ∀ a ∈ items, a.kind ≠ .arr ∧ (single a).fact? key = some (.json a))
    (hcompare : ∀ a ∈ items, ∀ v ∈ (Fact.json expected).values,
      ∃ hit, comparison.holds (.json a) v = .ok hit) :
    ∃ meets : Json → Bool,
      (∀ a ∈ items, clauseHolds name key expected (single a) = .ok (meets a)) ∧
      clauseHolds ("ForAllValues:" ++ name) key expected c = .ok (items.all meets) ∧
      clauseHolds ("ForAnyValue:" ++ name) key expected c =
        .ok (if negated then items.all meets else items.any meets) := by
  let met (a : Fact) : Bool :=
    (anyHolds (comparison.holds a) (Fact.json expected).values).toOption.getD false
  have hmet : ∀ a ∈ items.map Fact.json,
      anyHolds (comparison.holds a) (Fact.json expected).values = .ok (met a) := by
    refine List.forall_mem_map.2 fun a ha => ?_
    obtain ⟨hit, hhit⟩ := anyHolds_answers (hcompare a ha)
    simp only [met, hhit, Except.toOption, Option.getD_some]
  refine ⟨fun a => met (.json a) != negated, fun a ha => ?_, ?_, ?_⟩
  · obtain ⟨hkind, ha'⟩ := hsingle a ha
    rw [clauseHolds_single h hkind ha', hmet _ (List.mem_map_of_mem ha)]
    rfl
  · refine (clauseHolds_list h hfact .allValues).trans ?_
    rw [presentHolds_allValues hmet, List.all_map]
    rfl
  · refine (clauseHolds_list h hfact .anyValue).trans ?_
    rw [presentHolds_anyValue hmet, List.any_map]
    cases negated with
    | false => simp [Function.comp_def]
    | true => simp [Function.comp_def, List.not_any_eq_all_not]

end

/-- A request with some tags. -/
def tagged (tags : Json) : Context := { Context.empty with extra := [("aws:TagKeys", tags)] }

/-- Texts can always be compared. -/
theorem holds_text (a v : Fact) : ∃ hit, Comparison.text.holds a v = .ok hit := ⟨_, rfl⟩

/-- Two tags, one of which is expected and the other one is not. -/
theorem clauseHolds_quantified_tags :
    let tags : List Json := ["env", "team"]
    let expected : Json := .arr ["env"]
    ("StringEquals", Comparison.text, false) ∈ operators ∧
      (tagged (.arr tags)).fact? "aws:TagKeys" = some (.json (.arr tags)) ∧
      (∀ a ∈ tags, a.kind ≠ .arr ∧ (tagged a).fact? "aws:TagKeys" = some (.json a)) ∧
      (∀ a ∈ tags, ∀ v ∈ (Fact.json expected).values,
        ∃ hit, Comparison.text.holds (.json a) v = .ok hit) ∧
      ∃ meets : Json → Bool,
        (∀ a ∈ tags, clauseHolds "StringEquals" "aws:TagKeys" expected (tagged a) = .ok (meets a)) ∧
        clauseHolds "ForAllValues:StringEquals" "aws:TagKeys" expected (tagged (.arr tags)) =
          .ok (tags.all meets) ∧
        clauseHolds "ForAnyValue:StringEquals" "aws:TagKeys" expected (tagged (.arr tags)) =
          .ok (tags.any meets) := by
  intro tags expected
  have hoperator : ("StringEquals", Comparison.text, false) ∈ operators := by decide
  have hfact : (tagged (.arr tags)).fact? "aws:TagKeys" = some (.json (.arr tags)) := by rfl
  have hsingle : ∀ a ∈ tags, a.kind ≠ .arr ∧ (tagged a).fact? "aws:TagKeys" = some (.json a) := by
    intro a ha
    rcases List.mem_pair.1 ha with rfl | rfl
    · exact ⟨nofun, rfl⟩
    · exact ⟨nofun, rfl⟩
  have hcompare : ∀ a ∈ tags, ∀ v ∈ (Fact.json expected).values,
      ∃ hit, Comparison.text.holds (.json a) v = .ok hit := fun a _ v _ => holds_text _ v
  exact ⟨hoperator, hfact, hsingle, hcompare,
    clauseHolds_quantified hoperator hfact hsingle hcompare⟩

/-- Under `ForAnyValue`, a negated operator is false of two tags although it is true of one of them
by itself, and true where there is no tag. -/
theorem forAnyValue_negated :
    let expected : Json := .arr ["env"]
    (∀ a v : Fact, ∃ hit, Comparison.text.holds a v = .ok hit) ∧
      clauseHolds "StringNotEquals" "aws:TagKeys" expected (tagged "team") = .ok true ∧
      clauseHolds "ForAnyValue:StringNotEquals" "aws:TagKeys" expected
        (tagged (.arr ["env", "team"])) = .ok false ∧
      clauseHolds "ForAnyValue:StringNotEquals" "aws:TagKeys" expected (tagged (.arr [])) =
        .ok true :=
  ⟨holds_text, rfl, rfl, rfl⟩

end CloudAccess.Condition
