import CloudAccess.Proofs.Inventory.Rereading

/-!
# The two readers of snapshots

`Snapshot.ofJson` reads a record in one pass.  `Snapshot.decode` reads principals and resources
first, each record on its own, so that it can name the one that is malformed:

    decode v = .ok s ↔ ofJson v = .ok s                                  (decode_eq_ok_iff)
    FirstMalformed people things record cause →
      decode (.obj ms) = .error (.malformed cause)                       (decode_malformed)

The parts that follow may as well be read from the record with its principals and resources
blanked, and all of them be put together at the end (`decode_eq_spliced`).

A malformed record is named by its identifier, of whatever kind that is.  Records are taken to be
such as JSON text can hold (`Json.Proper`): an integer of more than `integerDigits` digits could not
be shown as the name.
-/

namespace CloudAccess

/-! ## Definitions -/

/-- The first record of a list that a reader refuses, and why. -/
def FirstRefused {α : Type} (read : Json → Except Fault α) (records : List Json) (record : Json)
    (f : Fault) : Prop :=
  ∃ before after, records = before ++ record :: after ∧
    (∀ r ∈ before, ∃ a, read r = .ok a) ∧ read record = .error f

namespace Snapshot

/-- The first malformed record of a snapshot: one of its principals, or one of its resources where
all principals are sound. -/
inductive FirstMalformed (people things : List Json) (record : Json) : Malformation → Prop
  | principal {f : Fault} (h : FirstRefused Principal.ofJson people record f) :
      FirstMalformed people things record (.principal (identifierOf record) f)
  | resource {f : Fault} (hpeople : ∀ r ∈ people, ∃ p, Principal.ofJson r = .ok p)
      (h : FirstRefused Resource.ofJson things record f) :
      FirstMalformed people things record (.resource (identifierOf record) f)

/-- The members of a record whose principals and resources are taken away. -/
def blanked (ms : Json.Members) : Json.Members :=
  Json.setMember "Resources" (.arr []) (Json.setMember "Principals" (.arr []) ms)

/-- Reads principals and resources, then the record without them, and puts the parts together. -/
def spliced (record : Json) : Except SnapshotError Snapshot := do
  let ms ← record.membersOf.mapError .fault
  let people ← (Json.member "Principals" ms).optionalItems.mapError .fault
  let principals ← people.mapM principalOf
  let things ← (Json.member "Resources" ms).optionalItems.mapError .fault
  let resources ← things.mapM resourceOf
  let rest ← (ofJson (.obj (blanked ms))).mapError fun f => .malformed (.organization f)
  return { rest with principals, resources }

end Snapshot

/-! ## Members that are set -/

namespace Json

theorem member?_setMember (name other : String) (v : Json) (ms : Members) :
    member? name (setMember other v ms) = if name = other then some v else member? name ms := by
  unfold member?
  induction ms with
  | nil =>
    by_cases hname : name = other
    · simp [setMember, hname]
    · rw [setMember, List.lookup_cons, beq_eq_false_iff_ne.2 hname, if_neg hname]
  | cons m ms ih =>
    obtain ⟨n, w⟩ := m
    by_cases hn : n = other
    · subst hn
      rw [setMember, if_pos rfl, List.lookup_cons, List.lookup_cons]
      by_cases hname : name = n
      · simp [hname]
      · rw [beq_eq_false_iff_ne.2 hname, if_neg hname]
    · rw [setMember, if_neg hn, List.lookup_cons, List.lookup_cons, ih]
      by_cases hname : name = n
      · simp [hname, hn]
      · rw [beq_eq_false_iff_ne.2 hname]

theorem member_setMember (name other : String) (v : Json) (ms : Members) :
    member name (setMember other v ms) = if name = other then v else member name ms := by
  rw [member, member?_setMember]
  split <;> rfl

end Json

/-! ## Records that are refused -/

section

variable {α : Type} {read : Json → Except Fault α} {records : List Json}

theorem exists_firstRefused (h : ∃ r ∈ records, ∃ f, read r = .error f) :
    ∃ record f, FirstRefused read records record f := by
  obtain ⟨f, hf⟩ := mapM_error_iff.2 h
  obtain ⟨before, record, after, hrecord⟩ := mapM_eq_error_iff.1 hf
  exact ⟨record, f, before, after, hrecord⟩

/-- A reader that tells which record it refused tells of the first one. -/
theorem FirstRefused.mapM_eq_error {record : Json} {f : Fault}
    (h : FirstRefused read records record f) (tell : Json → Fault → SnapshotError) :
    (records.mapM fun r => (read r).mapError (tell r)) = .error (tell record f) := by
  obtain ⟨before, after, hsplit, hbefore, hf⟩ := h
  refine mapM_eq_error_iff.2 ⟨before, record, after, hsplit, fun r hr => ?_, by rw [hf]; rfl⟩
  obtain ⟨a, ha⟩ := hbefore r hr
  exact ⟨a, mapError_eq_ok_iff.2 ha⟩

end

namespace Snapshot

theorem exists_firstMalformed {people things : List Json}
    (h : (∃ r ∈ people, ∃ f, Principal.ofJson r = .error f) ∨
      ∃ r ∈ things, ∃ f, Resource.ofJson r = .error f) :
    ∃ record cause, FirstMalformed people things record cause := by
  by_cases hpeople : ∃ r ∈ people, ∃ f, Principal.ofJson r = .error f
  · obtain ⟨record, f, hf⟩ := exists_firstRefused hpeople
    exact ⟨record, _, .principal hf⟩
  · obtain ⟨record, f, hf⟩ := exists_firstRefused (h.resolve_left hpeople)
    refine ⟨record, _, .resource (fun r hr => ?_) hf⟩
    cases hread : Principal.ofJson r with
    | ok p => exact ⟨p, rfl⟩
    | error f' => exact absurd ⟨r, hr, f', hread⟩ hpeople

/-- The error names the first malformed record. -/
theorem decode_malformed {ms : Json.Members} {people things : List Json} {record : Json}
    {cause : Malformation} (hpeople : (Json.member "Principals" ms).optionalItems = .ok people)
    (hthings : (Json.member "Resources" ms).optionalItems = .ok things)
    (h : FirstMalformed people things record cause) :
    decode (.obj ms) = .error (.malformed cause) := by
  unfold decode
  cases h with
  | principal h =>
    have hps : people.mapM principalOf = _ :=
      h.mapM_eq_error fun r f => .malformed (.principal (identifierOf r) f)
    simp only [Json.membersOf, hpeople, Except.mapError, ok_bind, hps]
    rfl
  | resource hsound h =>
    obtain ⟨ps, hps⟩ : ∃ ps, people.mapM principalOf = .ok ps := mapM_ok fun r hr =>
      (hsound r hr).imp fun _ hp => mapError_eq_ok_iff.2 hp
    have hrs : things.mapM resourceOf = _ :=
      h.mapM_eq_error fun r f => .malformed (.resource (identifierOf r) f)
    simp only [Json.membersOf, hpeople, hthings, Except.mapError, ok_bind, hps, hrs]
    rfl

theorem identifier_of_firstMalformed {people things : List Json} {record : Json}
    {cause : Malformation} (h : FirstMalformed people things record cause) :
    cause.identifier = identifierOf record := by
  cases h <;> rfl

/-! ## The same snapshots -/

/-- Both readers of snapshots give the same ones. -/
theorem decode_eq_ok_iff {v : Json} {s : Snapshot} : decode v = .ok s ↔ ofJson v = .ok s := by
  have hpeople {people : List Json} {ps : List Principal} :
      people.mapM principalOf = .ok ps ↔ people.mapM Principal.ofJson = .ok ps :=
    mapM_eq_ok_congr fun _ _ => mapError_eq_ok_iff
  have hthings {things : List Json} {rs : List Resource} :
      things.mapM resourceOf = .ok rs ↔ things.mapM Resource.ofJson = .ok rs :=
    mapM_eq_ok_congr fun _ _ => mapError_eq_ok_iff
  simp only [decode, ofJson, bind_eq_ok_iff, mapError_eq_ok_iff, hpeople, hthings]

theorem withRest_eq (ms : Json.Members) (principals : List Principal)
    (resources : List Resource) :
    withRest ms principals resources =
      (withRest ms [] []).map fun s => { s with principals, resources } := by
  simp only [withRest, map_bind]
  split <;> simp only [map_bind] <;> rfl

theorem ofJson_blanked (ms : Json.Members) : ofJson (.obj (blanked ms)) = withRest ms [] [] := by
  have hpeople : Json.member "Principals" (blanked ms) = .arr [] := by
    simp [blanked, Json.member_setMember]
  have hthings : Json.member "Resources" (blanked ms) = .arr [] := by
    simp [blanked, Json.member_setMember]
  have hrest {name : String} (hp : name ≠ "Principals") (hr : name ≠ "Resources") :
      Json.member name (blanked ms) = Json.member name ms := by
    rw [blanked, Json.member_setMember, if_neg hr, Json.member_setMember, if_neg hp]
  simp (disch := decide) only [ofJson, Json.membersOf, ok_bind, hpeople, hthings,
    Json.optionalItems_arr, List.mapM_nil, pure, Except.pure, withRest, hrest]

/-- Reading the rest from a record that is blanked makes no difference, to errors included. -/
theorem decode_eq_spliced (record : Json) : decode record = spliced record := by
  have hrest (ms : Json.Members) (ps : List Principal) (rs : List Resource) :
      (withRest ms ps rs).mapError (fun f => SnapshotError.malformed (.organization f)) =
        ((ofJson (.obj (blanked ms))).mapError fun f => .malformed (.organization f)) >>=
          fun rest => pure { rest with principals := ps, resources := rs } := by
    rw [withRest_eq, ofJson_blanked]
    cases withRest ms [] [] <;> rfl
  simp only [decode, spliced, hrest]

/-! ## Top theorem -/

/-- **The two readers of snapshots agree.**  They give the same snapshots.  Where some record in
the lists of principals and resources is malformed, the error names the first one, principals
before resources, by its identifier; this is assumed to be no integer of more than `integerDigits`
digits, which no message could show. -/
theorem decode_agrees (ms : Json.Members) :
    (∀ s, decode (.obj ms) = .ok s ↔ ofJson (.obj ms) = .ok s) ∧
    ∀ people things, Json.member "Principals" ms = .arr people →
      Json.member "Resources" ms = .arr things →
      (∃ r ∈ people, ∃ f, Principal.ofJson r = .error f) ∨
        (∃ r ∈ things, ∃ f, Resource.ofJson r = .error f) →
      ∃ record cause, FirstMalformed people things record cause ∧
        decode (.obj ms) = .error (.malformed cause) ∧
        cause.identifier = identifierOf record := by
  refine ⟨fun s => decode_eq_ok_iff, fun people things hpeople hthings h => ?_⟩
  obtain ⟨record, cause, hfirst⟩ := exists_firstMalformed h
  refine ⟨record, cause, hfirst, decode_malformed ?_ ?_ hfirst, identifier_of_firstMalformed hfirst⟩
  · rw [hpeople, Json.optionalItems_arr]
  · rw [hthings, Json.optionalItems_arr]

/-- A principal that is sound, and two that are not. -/
def brokenPeople : List Json :=
  [.obj [("ARN", "alice")],
    .obj [("ARN", "broken"), ("Policies", .arr [.obj [("Statement", .arr ["oops"])]])],
    .null]

def brokenRecord : Json.Members :=
  [("Principals", .arr brokenPeople), ("Resources", .arr [.int 5])]

theorem decode_agrees_brokenRecord :
    Json.member "Principals" brokenRecord = .arr brokenPeople ∧
    Json.member "Resources" brokenRecord = .arr [.int 5] ∧
    (∃ r ∈ brokenPeople, ∃ f, Principal.ofJson r = .error f) ∧
    ∃ record f, FirstMalformed brokenPeople [.int 5] record (.principal "broken" f) ∧
      decode (.obj brokenRecord) = .error (.malformed (.principal "broken" f)) ∧
      identifierOf record = "broken" := by
  have hsome : ∃ r ∈ brokenPeople, ∃ f, Principal.ofJson r = .error f :=
    ⟨.null, by simp [brokenPeople], _, rfl⟩
  have hbroken : decode (.obj brokenRecord) =
      .error (.malformed (.principal "broken" (.statementShape .str))) := rfl
  obtain ⟨record, cause, hfirst, hdecode, hidentifier⟩ :=
    (decode_agrees brokenRecord).2 brokenPeople [.int 5] rfl rfl (.inl hsome)
  obtain rfl := SnapshotError.malformed.inj (Except.error.inj (hbroken.symm.trans hdecode))
  exact ⟨rfl, rfl, hsome, record, _, hfirst, hdecode, hidentifier.symm⟩

end Snapshot
end CloudAccess
