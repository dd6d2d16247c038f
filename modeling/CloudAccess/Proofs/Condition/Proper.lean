import CloudAccess.Proofs.Condition.Order
import CloudAccess.Proofs.Json.Proper
import CloudAccess.Proofs.Number.Rounding
import CloudAccess.Proofs.OrderedMap

/-!
# Conditions on proper values

`Json.shown` and `Json.quoted` show integers of any length, and `Timestamp.epochSeconds` takes a
clock without an offset for universal time.  Conditions on proper values need neither.  A fact is
proper if JSON text can hold it, or if it is a point in time whose offset is known; a request is
proper if the facts that are given by name are, and its time.  Then so is all that is compared:

    block.Proper → c.Proper → k ∈ clausesOf block → v ∈ k.values c → v.Proper
                                                                       (Clause.proper_of_mem_values)
-/

namespace CloudAccess

/-! ## Definitions -/

/-- A value that JSON text can hold, or a point in time whose offset is known. -/
inductive Fact.Proper : Fact → Prop
  | json {v : Json} (proper : v.Proper) : Proper (.json v)
  | time {t : Timestamp} (zoned : t.offset.isSome = true) : Proper (.time t)

/-- The time and the facts that are given by name are proper. -/
structure Context.Proper (c : Context) : Prop where
  time : ∀ t, c.time = some t → (Fact.time t).Proper
  extra : ∀ m ∈ c.extra, m.2.Proper

/-- The values that a clause is about: those of its fact, and those that are expected. -/
def Condition.Clause.values (c : Context) (k : Clause) : List Fact :=
  match k.test with
  | none => []
  | some (key, expected) => (c.fact? key).elim [] Fact.values ++ (Fact.json expected).values

/-! ## Seconds -/

theorem Timestamp.proper_epochSeconds (t : Timestamp) : (Json.int t.epochSeconds).Proper := by
  have hsize : t.epochSeconds.natAbs < twoPow 1024 := by
    unfold epochSeconds
    dsimp only
    cases h : (Double.ofRatio (t.instant < 0) t.instant.natAbs microsPerSecond).truncate? with
    | none => exact twoPow_pos 1024
    | some n => exact Double.natAbs_lt_of_truncate? h
  have hdigits : t.epochSeconds.natAbs < tenPow integerDigits :=
    hsize.trans_le ((twoPow_le (by decide)).trans (twoPow_le_tenPow integerDigits))
  exact .int _ ((Digits.length_natDigits_le_iff (by decide)).2 hdigits)

/-! ## Facts -/

theorem Fact.Proper.values {v a : Fact} (h : v.Proper) (ha : a ∈ v.values) : a.Proper := by
  cases h with
  | time hzoned =>
    obtain rfl := List.mem_singleton.1 ha
    exact .time hzoned
  | @json v hv =>
    cases v with
    | arr items =>
      obtain ⟨w, hw, rfl⟩ := List.mem_map.1 ha
      exact .json (Json.proper_arr_iff.1 hv w hw)
    | _ =>
      obtain rfl := List.mem_singleton.1 ha
      exact .json hv

theorem Context.proper_of_mem_textFact {name : String} {s : Option String} {m : String × Fact}
    (h : m ∈ textFact name s) : m.2.Proper := by
  cases s with
  | none => cases h
  | some s =>
    dsimp only [textFact] at h
    split at h
    · cases h
    · rw [List.mem_singleton.1 h]
      exact .json (.str s)

namespace Context.Proper

variable {c : Context} (hc : c.Proper)

include hc

theorem of_mem_ownFacts {m : String × Fact} (h : m ∈ c.ownFacts) : m.2.Proper := by
  simp only [ownFacts, List.mem_append, List.mem_singleton, or_assoc] at h
  rcases h with rfl | h | h | h | h | h
  · exact .json (.bool _)
  · exact proper_of_mem_textFact h
  · exact proper_of_mem_textFact h
  · exact proper_of_mem_textFact h
  · exact proper_of_mem_textFact h
  · cases htime : c.time with
    | none =>
      rw [htime] at h
      cases h
    | some t =>
      rw [htime] at h
      rcases List.mem_pair.1 h with rfl | rfl
      · exact hc.time t htime
      · exact .json t.proper_epochSeconds

theorem fact? {key : String} {fact : Fact} (h : c.fact? key = some fact) : fact.Proper := by
  obtain ⟨hget, -⟩ := Option.filter_eq_some_iff.1 h
  rw [facts, OrderedMap.get?_ofList] at hget
  obtain ⟨m, hm, rfl⟩ := List.mem_map.1 (List.mem_of_getLast? hget)
  rcases List.mem_append.1 (List.mem_of_mem_filter hm) with hown | hextra
  · exact hc.of_mem_ownFacts hown
  · obtain ⟨e, he, rfl⟩ := List.mem_map.1 hextra
    exact .json (hc.extra e he)

end Context.Proper

namespace Condition

/-! ## Clauses -/

theorem proper_of_mem_clausesOf {block expected : Json} {operator key : String}
    (hblock : block.Proper) (hk : ⟨operator, some (key, expected)⟩ ∈ clausesOf block) :
    expected.Proper := by
  cases hblock with
  | obj ms hnames hms =>
    obtain ⟨⟨name, body⟩, hm, hk⟩ := List.mem_flatMap.1 hk
    have hbody : body.Proper := hms _ hm
    cases hbody with
    | obj clauses _ hclauses =>
      obtain ⟨m, hm, heq⟩ := List.mem_map.1 hk
      cases heq
      exact hclauses _ hm
    | _ => cases List.mem_singleton.1 hk
  | _ => cases hk

/-- Of a proper block and a proper request, only proper values are compared. -/
theorem Clause.proper_of_mem_values {block : Json} {c : Context} (hblock : block.Proper)
    (hc : c.Proper) {k : Clause} (hk : k ∈ clausesOf block) {v : Fact} (hv : v ∈ k.values c) :
    v.Proper := by
  obtain ⟨operator, test⟩ := k
  cases test with
  | none => cases hv
  | some test =>
    obtain ⟨key, expected⟩ := test
    rcases List.mem_append.1 hv with hactual | hexpected
    · cases hfact : c.fact? key with
      | none =>
        rw [hfact] at hactual
        cases hactual
      | some fact =>
        rw [hfact] at hactual
        exact (hc.fact? hfact).values hactual
    · exact Fact.Proper.values (.json (proper_of_mem_clausesOf hblock hk)) hexpected

end Condition
end CloudAccess
