import CloudAccess.Proofs.Decision.Faults
import CloudAccess.Proofs.Graph.Compilation
import CloudAccess.Storage

/-!
# Faults that are not told as malformations

A record of which no graph can be made is told to be malformed, and a file that cannot be read is
told to be so.  Some faults escape as they are (`escapes_iff`):

* where principals or resources should be listed there is `true`, or a number;
* the account's units are known, and one of them, or one that a policy is attached to, is a list or
  an object;
* a file has an integer that is too long, or its path has a NUL in it.

The messages show identifiers as they stand, integers among them (`Json.shown`).  Records are taken
to be such as JSON text can hold (`Json.Proper`): those have no integer too long to be shown.
-/

namespace CloudAccess

/-! ## Records -/

/-- Neither blank nor something with items: true, or a number that is not zero. -/
def Json.IsLone (v : Json) : Prop :=
  v.isBlank = false ∧ (v.kind = .bool ∨ v.kind = .int ∨ v.kind = .float)

/-- The principals of a record cannot be listed; or they can and are sound, but the resources
cannot be listed. -/
def Json.Unlistable (record : Json) : Prop :=
  ∃ ms, record = .obj ms ∧ ((Json.member "Principals" ms).IsLone ∨
    ((∃ people ps, (Json.member "Principals" ms).optionalItems = .ok people ∧
      people.mapM Snapshot.principalOf = .ok ps) ∧ (Json.member "Resources" ms).IsLone))

theorem Json.optionalItems_eq_error {v : Json} {f : Fault} :
    v.optionalItems = .error f ↔ v.IsLone ∧ f = .notIterable v.kind := by
  unfold optionalItems IsLone
  by_cases hblank : v.isBlank = true
  · rw [if_pos hblank]
    refine iff_of_false nofun fun h => ?_
    rw [hblank] at h
    cases h.1.1
  · rw [if_neg hblank]
    rw [Bool.not_eq_true] at hblank
    cases v with
    | null => cases hblank
    | _ => simp [itemsOf, kind, hblank, eq_comm]

namespace Snapshot

/-- A record that is not sound is told to be malformed. -/
theorem principalOf_ne_fault (record : Json) (f : Fault) :
    principalOf record ≠ .error (.fault f) := by
  intro h
  obtain ⟨f', -, hf⟩ := mapError_eq_error h
  cases hf

theorem resourceOf_ne_fault (record : Json) (f : Fault) :
    resourceOf record ≠ .error (.fault f) := by
  intro h
  obtain ⟨f', -, hf⟩ := mapError_eq_error h
  cases hf

/-- What is listed is told of by its records. -/
theorem mapM_ne_fault {β : Type} {read : Json → Except SnapshotError β}
    (h : ∀ record f, read record ≠ .error (.fault f)) (l : List Json) (f : Fault) :
    l.mapM read ≠ .error (.fault f) := by
  intro hl
  obtain ⟨record, -, hfault⟩ := exists_of_mapM_error hl
  exact h record f hfault

/-- Reading a record ends in a fault where something cannot be listed. -/
theorem decode_fault {ms : Json.Members} :
    (∃ f, decode (.obj ms) = .error (.fault f)) ↔ (Json.obj ms).Unlistable := by
  have hlone {v : Json} : (∃ f, v.optionalItems = .error f) ↔ v.IsLone := by
    simp only [Json.optionalItems_eq_error, exists_and_left, exists_eq, and_true]
  unfold Json.Unlistable decode
  constructor
  · rintro ⟨f, h⟩
    refine ⟨ms, rfl, ?_⟩
    rcases bind_eq_error h with h | ⟨_, hms, h⟩
    · cases h
    obtain rfl := Except.ok.inj hms
    rcases bind_eq_error h with h | ⟨people, hpeople, h⟩
    · obtain ⟨f', h, -⟩ := mapError_eq_error h
      exact .inl (hlone.1 ⟨f', h⟩)
    rcases bind_eq_error h with h | ⟨ps, hps, h⟩
    · exact absurd h (mapM_ne_fault principalOf_ne_fault people f)
    rcases bind_eq_error h with h | ⟨things, -, h⟩
    · obtain ⟨f', h, -⟩ := mapError_eq_error h
      exact .inr ⟨⟨people, ps, mapError_eq_ok hpeople, hps⟩, hlone.1 ⟨f', h⟩⟩
    rcases bind_eq_error h with h | ⟨rs, -, h⟩
    · exact absurd h (mapM_ne_fault resourceOf_ne_fault things f)
    · obtain ⟨f', -, hf⟩ := mapError_eq_error h
      cases hf
  · rintro ⟨ms', hms, hunlistable⟩
    obtain rfl := Json.obj.inj hms
    rcases hunlistable with h | ⟨⟨people, ps, hpeople, hps⟩, h⟩
    · obtain ⟨f, hf⟩ := hlone.2 h
      exact ⟨f, by simp only [Json.membersOf, hf, Except.mapError, ok_bind]; rfl⟩
    · obtain ⟨f, hf⟩ := hlone.2 h
      exact ⟨f, by simp only [Json.membersOf, hpeople, hps, hf, Except.mapError, ok_bind]; rfl⟩

end Snapshot

/-! ## Organization policies -/

/-- Before any target that covers the account there is a unit that identifies nothing. -/
def Attachment.Stumbles (account : Json) (hierarchy : Option Hierarchy) (a : Attachment) : Prop :=
  ∃ before t after, a.targets = before ++ t :: after ∧ t.kind = .unit ∧ t.id.key? = none ∧
    ∀ t' ∈ before, t'.governs account hierarchy = false

/-- The account's units are known, and one of them, or one that a policy is attached to, identifies
nothing. -/
def Snapshot.Unpickable (s : Snapshot) : Prop :=
  s.attachments ≠ [] ∧ ∃ h, s.hierarchy = some h ∧ ((∃ u ∈ h.units, u.key? = none) ∨
    ∃ a ∈ s.attachments, a.Stumbles s.account s.hierarchy)

section

variable {account : Json} {hi : Hierarchy} {keys : List Json.Key} (hkeys : hi.keys = .ok keys)

theorem Target.covers_eq_error {t : Target} {f : Fault} :
    t.covers account (some keys) = .error f ↔
      t.kind = .unit ∧ t.id.key? = none ∧ f = .notKey t.id.kind := by
  obtain ⟨kind, id, arn, name⟩ := t
  cases kind with
  | unit =>
    unfold covers Json.keyOf
    cases id.key? with
    | none => simp [bind, Except.bind, eq_comm]
    | some k => simp [bind, Except.bind, pure, Except.pure]
  | _ => simp [covers]

include hkeys

/-- The targets of an attachment are gone through until one covers the account. -/
theorem Attachment.anyCovers_error (a : Attachment) :
    (∃ f, Target.anyCovers account (some keys) a.targets = .error f) ↔
      a.Stumbles account (some hi) := by
  have hu : UnitsOf (some hi) (some keys) := ⟨keys, hkeys, rfl⟩
  unfold Stumbles
  induction a.targets with
  | nil =>
    refine iff_of_false not_ok_eq_error ?_
    rintro ⟨before, t, after, hnil, -⟩
    cases before <;> cases hnil
  | cons t rest ih =>
    rw [Target.anyCovers]
    simp only [List.cons_eq_append_iff]
    cases ht : t.covers account (some keys) with
    | error f =>
      obtain ⟨hunit, hkey, -⟩ := Target.covers_eq_error.1 ht
      exact iff_of_true ⟨f, rfl⟩ ⟨[], t, rest, .inl ⟨rfl, rfl⟩, hunit, hkey,
        fun t' ht' => absurd ht' List.not_mem_nil⟩
    | ok covered =>
      have hgoverns := Target.covers_governs hu ht
      have hfirst {t' : Target} {after : List Target} (he : t' :: after = t :: rest)
          (hunit : t'.kind = .unit) (hkey : t'.id.key? = none) : False := by
        obtain ⟨rfl, -⟩ := List.cons.inj he
        cases ht.symm.trans (Target.covers_eq_error.2 ⟨hunit, hkey, rfl⟩)
      cases covered with
      | true =>
        -- the search ends at `t`, so what comes after it cannot be stumbled upon
        refine iff_of_false not_ok_eq_error ?_
        rintro ⟨before, t', after, ⟨-, he⟩ | ⟨before', rfl, -⟩, hunit, hkey, hbefore⟩
        · exact hfirst he hunit hkey
        · cases hgoverns.trans (hbefore t List.mem_cons_self)
      | false =>
        refine ih.trans ⟨?_, ?_⟩
        · rintro ⟨before, t', after, rfl, hunit, hkey, hbefore⟩
          exact ⟨t :: before, t', after, .inr ⟨before, rfl, rfl⟩, hunit, hkey,
            List.forall_mem_cons.2 ⟨hgoverns.symm, hbefore⟩⟩
        · rintro ⟨before, t', after, ⟨-, he⟩ | ⟨before', rfl, rfl⟩, hunit, hkey, hbefore⟩
          · exact (hfirst he hunit hkey).elim
          · exact ⟨before', t', after, rfl, hunit, hkey, (List.forall_mem_cons.1 hbefore).2⟩

/-- The attachments are all gone through. -/
theorem Attachment.governingFrom_error (as : List Attachment) :
    (∃ f, (governingFrom account (some keys) as).outcome = .error f) ↔
      ∃ a ∈ as, a.Stumbles account (some hi) := by
  induction as with
  | nil =>
    refine iff_of_false not_ok_eq_error ?_
    rintro ⟨a, ha, -⟩
    exact absurd ha List.not_mem_nil
  | cons a rest ih =>
    rw [governingFrom, Traced.outcome_bind, Traced.outcome_ofExcept]
    simp only [List.mem_cons, exists_eq_or_imp, ← ih, ← anyCovers_error hkeys a]
    cases Target.anyCovers account (some keys) a.targets with
    | error f => exact iff_of_true ⟨f, rfl⟩ (.inl ⟨f, rfl⟩)
    | ok covered =>
      rw [ok_bind, or_iff_right not_ok_eq_error]
      cases covered with
      | true =>
        rw [if_pos rfl, Traced.outcome_bind]
        cases (governingFrom account (some keys) rest).outcome with
        | error f => exact .rfl
        | ok ds => exact iff_of_false not_ok_eq_error not_ok_eq_error
      | false => exact .rfl

end

/-- While the units of the account are not known every unit counts. -/
theorem Attachment.governingFrom_unknown (account : Json) (as : List Attachment) (f : Fault) :
    (governingFrom account none as).outcome ≠ .error f := by
  have hcovers (ts : List Target) : Target.anyCovers account none ts ≠ .error f := by
    induction ts with
    | nil =>
      intro h
      cases h
    | cons t rest ih =>
      intro h
      rw [Target.anyCovers] at h
      rcases bind_eq_error h with ht | ⟨covered, -, h⟩
      · obtain ⟨kind, id, arn, name⟩ := t
        cases kind <;> cases ht
      · cases covered with
        | true => cases h
        | false => exact ih h
  induction as with
  | nil =>
    intro h
    cases h
  | cons a rest ih =>
    intro h
    rw [governingFrom, Traced.outcome_bind, Traced.outcome_ofExcept] at h
    rcases bind_eq_error h with ha | ⟨covered, -, h⟩
    · exact hcovers a.targets ha
    · cases covered with
      | true =>
        rw [if_pos rfl, Traced.outcome_bind] at h
        rcases bind_eq_error h with hrest | ⟨ds, -, h⟩
        · exact ih hrest
        · cases h
      | false => exact ih h

namespace Hierarchy

theorem keys_error (h : Hierarchy) : (∃ f, h.keys = .error f) ↔ ∃ u ∈ h.units, u.key? = none := by
  have hkey (v : Json) : (∃ f, v.keyOf = .error f) ↔ v.key? = none := by
    unfold Json.keyOf
    cases v.key? with
    | none => exact iff_of_true ⟨_, rfl⟩ rfl
    | some k => exact iff_of_false not_ok_eq_error nofun
  simp only [keys, mapM_error_iff, hkey]

end Hierarchy

namespace Graph

/-- The policies of the organization cannot be picked where there is a unit that identifies
nothing. -/
theorem guardrailsOf_error (s : Snapshot) :
    (∃ f, (guardrailsOf s).outcome = .error f) ↔ s.Unpickable := by
  unfold guardrailsOf Snapshot.Unpickable
  split
  · next hempty =>
    exact iff_of_false not_ok_eq_error fun h => h.1 (List.isEmpty_iff.1 hempty)
  · next hempty =>
    have hkept {picked : Except Fault (List Document)} :
        (∃ f, (picked >>= fun kept => .ok kept) = .error f) ↔ ∃ f, picked = .error f := by
      cases picked <;> exact .rfl
    rw [and_iff_right (mt List.isEmpty_iff.2 hempty), Traced.outcome_bind]
    refine hkept.trans ?_
    cases s.hierarchy with
    | none =>
      refine iff_of_false ?_ ?_
      · rintro ⟨f, hf⟩
        exact Attachment.governingFrom_unknown s.account s.attachments f hf
      · rintro ⟨h, hh, -⟩
        cases hh
    | some hi =>
      simp only [Option.some.injEq, exists_eq_left', ← Hierarchy.keys_error]
      rw [Attachment.governing, Traced.outcome_bind, Traced.outcome_ofExcept]
      cases hkeys : hi.keys with
      | error f => exact iff_of_true ⟨f, rfl⟩ (.inl ⟨f, rfl⟩)
      | ok keys =>
        rw [ok_bind, or_iff_right not_ok_eq_error]
        exact Attachment.governingFrom_error hkeys s.attachments

/-! ## Graphs -/

/-- A principal or a resource that cannot be used is told to be malformed. -/
theorem addPrincipal_ne_fault (g : Graph) (p : Principal) (f : Fault) :
    (g.addPrincipal p).outcome ≠ .error (.fault f) := by
  intro h
  rw [addPrincipal_outcome] at h
  obtain ⟨f', -, hf⟩ := mapError_eq_error (map_eq_error h)
  cases hf

theorem addResource_ne_fault (g : Graph) (r : Resource) (f : Fault) :
    (g.addResource r).outcome ≠ .error (.fault f) := by
  intro h
  rw [addResource_outcome] at h
  rcases bind_eq_error h with h | ⟨id, -, h⟩
  · obtain ⟨f', -, hf⟩ := mapError_eq_error h
    cases hf
  · obtain ⟨f', -, hf⟩ := mapError_eq_error (map_eq_error h)
    cases hf

theorem foldlM_ne_fault {β : Type} {step : Graph → β → Run SnapshotError Graph} {f : Fault}
    (h : ∀ g b, (step g b).outcome ≠ .error (.fault f)) (bs : List β) (g : Graph) :
    (bs.foldlM step g).outcome ≠ .error (.fault f) := by
  induction bs generalizing g with
  | nil => nofun
  | cons b rest ih =>
    intro hrun
    rw [List.foldlM_cons, Traced.outcome_bind] at hrun
    rcases bind_eq_error hrun with hb | ⟨g', -, hrest⟩
    · exact h g b hb
    · exact ih g' hrest

/-- Making the graph of a snapshot ends in a fault where the policies of the organization cannot be
picked. -/
theorem ofSnapshot_fault (s : Snapshot) :
    (∃ f, (ofSnapshot s).outcome = .error (.fault f)) ↔ s.Unpickable := by
  rw [← guardrailsOf_error]
  unfold ofSnapshot
  simp only [Traced.outcome_bind, Traced.outcome_mapError]
  constructor
  · rintro ⟨f, h⟩
    rcases bind_eq_error h with h | ⟨guardrails, -, h⟩
    · obtain ⟨f', h, -⟩ := mapError_eq_error h
      exact ⟨f', h⟩
    rcases bind_eq_error h with h | ⟨g, -, h⟩
    · exact absurd h (foldlM_ne_fault (fun g p => addPrincipal_ne_fault g p f) s.principals _)
    rcases bind_eq_error h with h | ⟨g', -, h⟩
    · exact absurd h (foldlM_ne_fault (fun g r => addResource_ne_fault g r f) s.resources g)
    · cases h
  · rintro ⟨f, h⟩
    rw [h]
    exact ⟨f, rfl⟩

theorem ofJson_fault (record : Json) :
    (∃ f, (ofJson record).outcome = .error (.fault f)) ↔
      record.Unlistable ∨ ∃ s, Snapshot.decode record = .ok s ∧ s.Unpickable := by
  have hrecord (hobj : ¬ ∃ ms, record = .obj ms) :
      ¬ (record.Unlistable ∨ ∃ s, Snapshot.decode record = .ok s ∧ s.Unpickable) := by
    rintro (⟨ms, hms, -⟩ | ⟨s, hs, -⟩)
    · exact hobj ⟨ms, hms⟩
    · unfold Snapshot.decode at hs
      obtain ⟨ms, hms, -⟩ := bind_eq_ok hs
      cases record with
      | obj ms => exact hobj ⟨ms, rfl⟩
      | _ => cases hms
  cases record with
  | obj ms =>
    unfold ofJson
    simp only [Traced.outcome_bind, ← Snapshot.decode_fault, ← ofSnapshot_fault]
    rw [Traced.outcome_ofExcept]
    cases Snapshot.decode (.obj ms) with
    | error e => simp [Except.bind, bind]
    | ok s => simp [Except.bind, bind]
  | _ =>
    refine iff_of_false ?_ (hrecord nofun)
    rintro ⟨f, hf⟩
    cases hf

end Graph

/-! ## Files -/

namespace Files

/-- A file is read as what the bytes in it hold. -/
theorem snapshotRecord_fault (fs : Files) (path : String) :
    (∃ f, fs.snapshotRecord path = .error (.fault f)) ↔ fs.read path = .error .nul ∨
      ∃ bytes n, fs.read path = .ok bytes ∧ jsonOfBytes bytes = .error (.oversized n) := by
  unfold snapshotRecord
  cases hread : fs.read path with
  | error o =>
    have hobstacle : (∃ f, AccessError.ofObstacle (.snapshotUnread path) o = .fault f) ↔
        o = .nul := by
      cases o <;> simp [AccessError.ofObstacle]
    simp [Except.mapError, bind, Except.bind, hobstacle]
  | ok bytes =>
    have hsame {P : List UInt8 → Prop} :
        (∃ bytes', (.ok bytes : Except Obstacle _) = .ok bytes' ∧ P bytes') ↔ P bytes := by
      simp
    simp only [Except.mapError, ok_bind, exists_and_left, hsame]
    cases jsonOfBytes bytes with
    | ok record => cases record <;> simp
    | error e => cases e <;> simp

theorem snapshotRecord_eq_ok (fs : Files) (path : String) (record : Json) :
    fs.snapshotRecord path = .ok record ↔ (∃ ms, record = .obj ms) ∧
      ∃ bytes, fs.read path = .ok bytes ∧ jsonOfBytes bytes = .ok record := by
  unfold snapshotRecord
  cases hread : fs.read path with
  | error o => simp [Except.mapError, bind, Except.bind]
  | ok bytes =>
    simp only [Except.mapError, ok_bind, Except.ok.injEq, exists_eq_left']
    cases jsonOfBytes bytes with
    | ok v =>
      cases v with
      | obj ms =>
        simp only [Except.ok.injEq]
        exact ⟨fun h => ⟨⟨ms, h.symm⟩, h⟩, And.right⟩
      | _ =>
        refine iff_of_false nofun ?_
        rintro ⟨⟨ms, rfl⟩, h⟩
        cases h
    | error e => cases e <;> simp

theorem loadSnapshot_outcome (fs : Files) (path : String) : (fs.loadSnapshot path).outcome =
    fs.snapshotRecord path >>= fun record =>
      (Snapshot.decode record).mapError .ofSnapshotError := by
  unfold loadSnapshot
  rw [Traced.outcome_bind, Traced.outcome_ofExcept]
  cases fs.snapshotRecord path with
  | error e => rfl
  | ok record =>
    rw [ok_bind, ok_bind, Traced.outcome_bind, Traced.outcome_ofExcept]
    cases Snapshot.decode record <;> rfl

theorem loadSnapshot_fault (fs : Files) (path : String) :
    (∃ f, (fs.loadSnapshot path).outcome = .error (.fault f)) ↔ fs.read path = .error .nul ∨
      ∃ bytes, fs.read path = .ok bytes ∧ ((∃ n, jsonOfBytes bytes = .error (.oversized n)) ∨
        ∃ record, jsonOfBytes bytes = .ok record ∧ record.Unlistable) := by
  rw [loadSnapshot_outcome]
  constructor
  · rintro ⟨f, h⟩
    rcases bind_eq_error h with h | ⟨record, hrecord, h⟩
    · rcases (snapshotRecord_fault fs path).1 ⟨f, h⟩ with h | ⟨bytes, n, hread, htext⟩
      · exact .inl h
      · exact .inr ⟨bytes, hread, .inl ⟨n, htext⟩⟩
    · obtain ⟨⟨ms, rfl⟩, bytes, hread, htext⟩ := (snapshotRecord_eq_ok fs path record).1 hrecord
      obtain ⟨e, h, he⟩ := mapError_eq_error h
      cases e with
      | fault f' => exact .inr ⟨bytes, hread, .inr ⟨_, htext, Snapshot.decode_fault.1 ⟨f', h⟩⟩⟩
      | malformed m => cases he
  · rintro (h | ⟨bytes, hread, ⟨n, htext⟩ | ⟨record, htext, hunlistable⟩⟩)
    · obtain ⟨f, hf⟩ := (snapshotRecord_fault fs path).2 (.inl h)
      exact ⟨f, by rw [hf]; rfl⟩
    · obtain ⟨f, hf⟩ := (snapshotRecord_fault fs path).2 (.inr ⟨bytes, n, hread, htext⟩)
      exact ⟨f, by rw [hf]; rfl⟩
    · obtain ⟨ms, rfl, -⟩ := id hunlistable
      obtain ⟨f, hf⟩ := Snapshot.decode_fault.2 hunlistable
      have hrecord := (snapshotRecord_eq_ok fs path _).2 ⟨⟨ms, rfl⟩, bytes, hread, htext⟩
      exact ⟨f, by rw [hrecord, ok_bind, hf]; rfl⟩

/-- What is no fault is told to be malformed, or to be a file that cannot be read. -/
theorem loadSnapshot_error {fs : Files} {path : String} {e : AccessError}
    (h : (fs.loadSnapshot path).outcome = .error e) :
    (∃ f, e = .fault f) ∨ (∃ cause, e = .malformed cause) ∨ ∃ error, e = .file error := by
  rw [loadSnapshot_outcome] at h
  rcases bind_eq_error h with h | ⟨record, -, h⟩
  · unfold snapshotRecord at h
    rcases bind_eq_error h with h | ⟨bytes, -, h⟩
    · obtain ⟨o, -, rfl⟩ := mapError_eq_error h
      cases o with
      | nul => exact .inl ⟨_, rfl⟩
      | _ => exact .inr (.inr ⟨_, rfl⟩)
    · split at h
      · cases h
      · exact .inr (.inr ⟨_, (Except.error.inj h).symm⟩)
      · exact .inl ⟨_, (Except.error.inj h).symm⟩
      · exact .inr (.inr ⟨_, (Except.error.inj h).symm⟩)
  · obtain ⟨cause, -, rfl⟩ := mapError_eq_error h
    cases cause with
    | fault f => exact .inl ⟨f, rfl⟩
    | malformed m => exact .inr (.inl ⟨m, rfl⟩)

end Files

/-! ## Top theorem -/

/-- **Which faults escape.**  Making the graph of a record ends in a fault just where principals or
resources cannot be listed, or the policies of the organization cannot be picked.  Loading a
snapshot does just where the path has a NUL in it, an integer is too long, or principals or
resources cannot be listed; all else that keeps it from being loaded is a malformation or an error
of the file.  The record is assumed to have no integer of more than `integerDigits` digits, with
which the message of a malformation could not be made. -/
theorem escapes_iff (record : Json) (fs : Files) (path : String) :
    ((∃ f, (Graph.ofJson record).outcome = .error (.fault f)) ↔
      record.Unlistable ∨ ∃ s, Snapshot.decode record = .ok s ∧ s.Unpickable) ∧
    ((∃ f, (fs.loadSnapshot path).outcome = .error (.fault f)) ↔ fs.read path = .error .nul ∨
      ∃ bytes, fs.read path = .ok bytes ∧ ((∃ n, jsonOfBytes bytes = .error (.oversized n)) ∨
        ∃ held, jsonOfBytes bytes = .ok held ∧ held.Unlistable)) ∧
    ∀ e, (fs.loadSnapshot path).outcome = .error e →
      (∃ f, e = .fault f) ∨ (∃ cause, e = .malformed cause) ∨ ∃ error, e = .file error :=
  ⟨Graph.ofJson_fault record, fs.loadSnapshot_fault path, fun _ => Files.loadSnapshot_error⟩

/-- Five for the regions is told to be malformed, five for the principals or a list for one of the
account's units is not; nor is five that stands in a file. -/
theorem escaping_faults :
    let five : Json := .obj [("Principals", .int 5)]
    let bytes := Text.Utf8.encode "\x7b\"Principals\":5\x7d"
    (Graph.ofJson (.obj [("Regions", .int 5)])).outcome =
      .error (.malformed (.organization (.notIterable .int))) ∧
    (Graph.ofJson five).outcome = .error (.fault (.notIterable .int)) ∧
    (Graph.ofJson (.obj [
      ("SCPAttachments", .arr [.obj [("Policy", .obj []), ("Targets", .arr [])]]),
      ("OUHierarchy", .obj [("ParentOUs", .arr [.arr [.str "x"]])])])).outcome =
        .error (.fault (.notKey .arr)) ∧
    jsonOfBytes bytes = .ok five ∧
    (Files.loadSnapshot ⟨[("five", .file bytes)]⟩ "five").outcome =
      .error (.fault (.notIterable .int)) := by
  have htext : jsonOfBytes (Text.Utf8.encode "\x7b\"Principals\":5\x7d") =
      .ok (.obj [("Principals", .int 5)]) := by cbv
  intro five bytes
  have hrecord := (Files.snapshotRecord_eq_ok ⟨[("five", .file bytes)]⟩ "five" five).2
    ⟨⟨_, rfl⟩, bytes, rfl, htext⟩
  refine ⟨by rfl, by rfl, by rfl, htext, ?_⟩
  rw [Files.loadSnapshot_outcome, hrecord]
  rfl

end CloudAccess
