import CloudAccess.Inventory.Snapshot
import CloudAccess.Proofs.Decision.Scans
import Mathlib

/-!
# Records survive rereading

A record is read loosely: a policy may be a text, a list may be a single item, a missing or
blank field takes its default.  What was read is then written in one form, and

    ofJson v = .ok x  →  ofJson x.toJson = .ok x                  (rereads)

for statements, documents, principals, resources, targets, attachments, hierarchies and
snapshots.  Between the two stands `Settled`, one predicate for each type: what the reader's
defaults leave in a field.  Each reader gives settled values (`settled_of_ofJson`), and settled
values are read back as they were written (`ofJson_toJson`).
-/

namespace CloudAccess

/-! ## Definitions -/

namespace Json

/-- What a field holds that takes the empty text where nothing is given. -/
def Filled (v : Json) : Prop := v.orIfBlank "" = v

end Json

/-- The condition of a statement is a block with operators or null. -/
def Statement.Settled (s : Statement) : Prop := Statement.conditionOf s.condition = s.condition

/-- A document has a version. -/
structure Document.Settled (d : Document) : Prop where
  version : d.version ≠ ""
  statements : ∀ s ∈ d.statements, s.Settled

structure Principal.Settled (p : Principal) : Prop where
  name : p.name.Filled
  account : p.account.Filled
  policies : ∀ d ∈ p.policies, d.Settled
  trust : ∀ d ∈ p.trust, d.Settled
  boundary : ∀ d ∈ p.boundary, d.Settled

structure Resource.Settled (r : Resource) : Prop where
  name : r.name.Filled
  region : r.region.Filled
  account : r.account.Filled
  policy : ∀ d ∈ r.policy, d.Settled

structure Target.Settled (t : Target) : Prop where
  id : t.id.Filled
  arn : t.arn.Filled
  name : t.name.Filled

structure Attachment.Settled (a : Attachment) : Prop where
  policy : a.policy.Settled
  targets : ∀ t ∈ a.targets, t.Settled

def Hierarchy.Settled (h : Hierarchy) : Prop := h.account.Filled

structure Snapshot.Settled (s : Snapshot) : Prop where
  principals : ∀ p ∈ s.principals, p.Settled
  resources : ∀ r ∈ s.resources, r.Settled
  guardrails : ∀ d ∈ s.guardrails, d.Settled
  attachments : ∀ a ∈ s.attachments, a.Settled
  hierarchy : ∀ h ∈ s.hierarchy, h.Settled
  account : s.account.Filled

/-- What a reader gives is what it reads from the record written of it. -/
def Rereads {α : Type} (read : Json → Except Fault α) (write : α → Json) : Prop :=
  ∀ v x, read v = .ok x → read (write x) = .ok x

/-! ## Fields -/

namespace DecimalStyle

theorem positional_ne_nil (style : DecimalStyle) (cs : List Char) (leading : Int)
    (h : style.integralEnding ≠ []) : style.positional cs leading ≠ [] := by
  unfold positional
  split
  · exact List.cons_ne_nil _ _
  · dsimp only
    split
    · exact List.append_ne_nil_of_right_ne_nil _ h
    · exact List.append_ne_nil_of_right_ne_nil _ (List.cons_ne_nil _ _)

theorem scientific_ne_nil (style : DecimalStyle) (cs : List Char) (leading : Int) :
    style.scientific cs leading ≠ [] := by
  simp [scientific]

end DecimalStyle

theorem numberStyle_render_ne_empty (x : Double) : numberStyle.render x ≠ "" := by
  have ending : numberStyle.integralEnding ≠ [] := List.cons_ne_nil _ _
  unfold DecimalStyle.render
  split
  · decide
  · next negative _ => cases negative <;> decide
  · next negative m e _ =>
    dsimp only
    split
    · simp
    · rw [Ne, String.ofList_eq_empty_iff, List.append_eq_nil_iff, not_and]
      intro _
      split
      · exact DecimalStyle.positional_ne_nil _ _ _ ending
      · exact DecimalStyle.scientific_ne_nil _ _ _

namespace Json

theorem orIfBlank_of_not_blank {v : Json} (h : v.isBlank = false) (w : Json) :
    v.orIfBlank w = v := by
  unfold orIfBlank
  rw [h]
  rfl

theorem orIfBlank_of_blank {v : Json} (h : v.isBlank = true) (w : Json) :
    v.orIfBlank w = w := if_pos h

/-- A blank field is filled in once. -/
theorem filled_orIfBlank (v : Json) : (v.orIfBlank "").Filled := by
  unfold Filled
  cases h : v.isBlank with
  | true =>
    rw [orIfBlank_of_blank h]
    rfl
  | false => rw [orIfBlank_of_not_blank h, orIfBlank_of_not_blank h]

theorem Filled.eq {v : Json} (h : v.Filled) : v.orIfBlank "" = v := h

/-- A filled field that is written only if it is not blank. -/
theorem Filled.optional {v : Json} (h : v.Filled) :
    ((if v.isBlank = true then none else some v).getD null).orIfBlank "" = v := by
  split
  · next hb => exact (orIfBlank_of_blank hb "").symm.trans h
  · exact h

theorem texts_arr (l : List String) : (arr (l.map str)).texts = l := by
  show textsOf (l.map str) = l
  unfold textsOf
  rw [List.filterMap_map]
  exact List.filterMap_some

theorem optionalItems_arr (items : List Json) : (arr items).optionalItems = .ok items := by
  cases items <;> rfl

@[simp] theorem shown_str (s : String) : (str s).shown = s := rfl

theorem shown_orIfBlank_empty (s : String) : ((str s).orIfBlank (str "")).shown = s := by
  cases h : (str s).isBlank with
  | true =>
    rw [orIfBlank_of_blank h]
    exact (String.isEmpty_iff.1 h).symm
  | false =>
    rw [orIfBlank_of_not_blank h]
    rfl

/-- A label that is written only if it is not empty. -/
theorem shown_optional_label (s : String) :
    (((if s.isEmpty = true then none else some (str s)).getD null).orIfBlank (str "")).shown =
      s := by
  split
  · next h => exact (String.isEmpty_iff.1 h).symm
  · exact shown_orIfBlank_empty s

/-- Only blank values are shown as the empty text. -/
theorem shown_ne_empty {v : Json} (h : v.isBlank = false) : v.shown ≠ "" := by
  cases v with
  | null => cases h
  | bool b => cases b <;> decide
  | int n => simp [shown, quoted, intText, natDigits]
  | float x => exact numberStyle_render_ne_empty x
  | str s =>
    show s ≠ ""
    simpa [isBlank] using h
  | arr items => simp [shown, quoted]
  | obj ms => simp [shown, quoted]

theorem shown_orIfBlank_ne_empty (v : Json) {s : String} (h : s ≠ "") :
    (v.orIfBlank (str s)).shown ≠ "" := by
  cases hb : v.isBlank with
  | true => rwa [orIfBlank_of_blank hb]
  | false =>
    rw [orIfBlank_of_not_blank hb]
    exact shown_ne_empty hb

/-! ## Members that are written only if there is something to write -/

@[simp] theorem member?_append (name : String) (ms ns : Members) :
    member? name (ms ++ ns) = (member? name ms).or (member? name ns) := List.lookup_append

@[simp] theorem member?_cons (name other : String) (v : Json) (ms : Members) :
    member? name ((other, v) :: ms) = if name = other then some v else member? name ms := by
  by_cases h : name = other
  · simp [member?, List.lookup, h]
  · simp [member?, List.lookup, h, beq_eq_false_iff_ne.2 h]

@[simp] theorem member?_nil (name : String) : member? name [] = none := rfl

@[simp] theorem member?_unless (name other : String) (b : Bool) (v : Json) :
    member? name (if b then [] else [(other, v)]) =
      if name = other then (if b then none else some v) else none := by
  cases b with
  | true => simp [member?]
  | false => exact member?_cons name other v []

end Json

/-! ## Statements and documents -/

namespace Statement

theorem isNull_iff {v : Json} : isNull v = true ↔ v = .null := by
  cases v <;> simp [isNull]

theorem conditionOf_of_blank {v : Json} (h : v.isBlank = true) : conditionOf v = .null := by
  unfold conditionOf
  split
  · cases h
  · rfl

theorem conditionOf_conditionOf (v : Json) : conditionOf (conditionOf v) = conditionOf v := by
  obtain h | ⟨m, ms, rfl⟩ : conditionOf v = .null ∨ ∃ m ms, v = .obj (m :: ms) := by
    unfold conditionOf
    split
    · exact .inr ⟨_, _, rfl⟩
    · exact .inl rfl
  · rw [h]
    rfl
  · rfl

theorem settled_of_ofJson {v : Json} {s : Statement} (h : ofJson v = .ok s) : s.Settled := by
  cases v with
  | obj ms =>
    obtain rfl := Except.ok.inj h
    exact conditionOf_conditionOf _
  | _ => cases h

theorem ofJson_toJson {s : Statement} (h : s.Settled) : ofJson s.toJson = .ok s := by
  obtain ⟨effect, actions, resources, principal, condition, sid⟩ := s
  replace h : conditionOf condition = condition := h
  have principal_read :
      (if isNull principal = true then none else some principal).getD Json.null = principal := by
    split
    · next hnull => exact (isNull_iff.1 hnull).symm
    · rfl
  have condition_read :
      conditionOf ((if condition.isBlank = true then none else some condition).getD .null) =
        condition := by
    split
    · next hblank => exact (conditionOf_of_blank hblank).symm.trans h
    · exact h
  simp [toJson, ofJson, Json.member, Json.texts_arr, principal_read, condition_read,
    Json.shown_optional_label, -String.isEmpty_iff]

theorem rereads : Rereads ofJson toJson :=
  fun _ _ h => ofJson_toJson (settled_of_ofJson h)

end Statement

namespace Document

theorem settled_of_ofMembers {ms : Json.Members} {d : Document} (h : ofMembers ms = .ok d) :
    d.Settled := by
  obtain ⟨records, -, h⟩ := bind_eq_ok h
  obtain ⟨statements, hs, h⟩ := bind_eq_ok h
  obtain rfl := Except.ok.inj h
  constructor
  case version => exact Json.shown_orIfBlank_ne_empty _ (by decide)
  case statements => exact forall_of_mapM hs fun _ _ => Statement.settled_of_ofJson

/-- A document in text has the members that some text is read as. -/
theorem members_of_ofText {text : String} {d : Document} (h : ofText text = .ok d) :
    ∃ text' ms, Json.read text' = .ok (.obj ms) ∧ ofMembers ms = .ok d := by
  unfold ofText at h
  dsimp only at h
  split at h
  · next hread =>
    rw [ok_bind] at h
    split at h
    · exact ⟨_, _, hread, h⟩
    · cases h
  · cases h
  · split at h
    · next hread =>
      rw [ok_bind] at h
      split at h
      · exact ⟨_, _, hread, h⟩
      · cases h
    · cases h
    · cases h

theorem settled_of_ofText {text : String} {d : Document} (h : ofText text = .ok d) :
    d.Settled := by
  obtain ⟨-, ms, -, hms⟩ := members_of_ofText h
  exact settled_of_ofMembers hms

theorem settled_of_ofJson {v : Json} {d : Document} (h : ofJson v = .ok d) : d.Settled := by
  cases v with
  | str text => exact settled_of_ofText h
  | obj ms => exact settled_of_ofMembers h
  | _ => cases h

theorem settled_of_ofJson? {v : Json} {o : Option Document} (h : ofJson? v = .ok o) :
    ∀ d ∈ o, d.Settled := by
  unfold ofJson? at h
  split at h
  · obtain rfl := Except.ok.inj h
    intro d hd
    cases hd
  · obtain ⟨d, hd, rfl⟩ := map_eq_ok h
    rintro _ ⟨⟩
    exact settled_of_ofJson hd

theorem ofJson_toJson {d : Document} (h : d.Settled) : ofJson d.toJson = .ok d := by
  have records_read : statementRecords (.arr (d.statements.map Statement.toJson)) =
      .ok (d.statements.map Statement.toJson) := by
    cases d.statements <;> rfl
  have statements_read : (d.statements.map Statement.toJson).mapM Statement.ofJson =
      .ok d.statements :=
    mapM_map_of_forall fun s hs => Statement.ofJson_toJson (h.statements s hs)
  have version_read : ((Json.str d.version).orIfBlank defaultVersion).shown = d.version := by
    rw [Json.orIfBlank_of_not_blank (by simpa [Json.isBlank] using h.version)]
    rfl
  show ofMembers _ = _
  simp [ofMembers, Json.member, records_read, statements_read, version_read,
    Json.shown_optional_label, -String.isEmpty_iff, -bind_pure_comp]
  rfl

theorem ofJson?_toJson? {o : Option Document} (h : ∀ d ∈ o, d.Settled) :
    ofJson? (toJson? o) = .ok o := by
  cases o with
  | none => rfl
  | some d =>
    show (ofJson d.toJson).map some = _
    rw [ofJson_toJson (h d rfl)]
    rfl

theorem mapM_written {ds : List Document} (h : ∀ d ∈ ds, d.Settled) :
    (ds.map toJson).mapM ofJson = .ok ds :=
  mapM_map_of_forall fun d hd => ofJson_toJson (h d hd)

theorem rereads : Rereads ofJson toJson :=
  fun _ _ h => ofJson_toJson (settled_of_ofJson h)

end Document

/-! ## Principals and resources -/

namespace Principal

theorem settled_of_ofJson {v : Json} {p : Principal} (h : ofJson v = .ok p) : p.Settled := by
  obtain ⟨arn, -, h⟩ := bind_eq_ok h
  obtain ⟨ms, -, h⟩ := bind_eq_ok h
  obtain ⟨kind, -, h⟩ := bind_eq_ok h
  obtain ⟨documents, -, h⟩ := bind_eq_ok h
  obtain ⟨policies, hpolicies, h⟩ := bind_eq_ok h
  obtain ⟨trust, htrust, h⟩ := bind_eq_ok h
  obtain ⟨boundary, hboundary, h⟩ := bind_eq_ok h
  obtain ⟨groups, -, h⟩ := bind_eq_ok h
  obtain rfl := Except.ok.inj h
  constructor
  case name => exact Json.filled_orIfBlank _
  case account => exact Json.filled_orIfBlank _
  case policies => exact forall_of_mapM hpolicies fun _ _ => Document.settled_of_ofJson
  case trust => exact Document.settled_of_ofJson? htrust
  case boundary => exact Document.settled_of_ofJson? hboundary

theorem ofJson_toJson {p : Principal} (h : p.Settled) : ofJson p.toJson = .ok p := by
  have kind_read : PrincipalKind.ofJson (.str p.kind.name) = .ok p.kind := by
    cases p.kind <;> rfl
  simp [ofJson, toJson, Json.required, Json.membersOf, Json.member, Json.optionalItems_arr,
    kind_read, Document.mapM_written h.policies, Document.ofJson?_toJson? h.trust,
    Document.ofJson?_toJson? h.boundary, h.name.eq, h.account.eq, -bind_pure_comp]
  rfl

theorem rereads : Rereads ofJson toJson :=
  fun _ _ h => ofJson_toJson (settled_of_ofJson h)

end Principal

namespace Resource

theorem settled_of_ofJson {v : Json} {r : Resource} (h : ofJson v = .ok r) : r.Settled := by
  obtain ⟨arn, -, h⟩ := bind_eq_ok h
  obtain ⟨ms, -, h⟩ := bind_eq_ok h
  obtain ⟨policy, hpolicy, h⟩ := bind_eq_ok h
  obtain rfl := Except.ok.inj h
  constructor
  case name => exact Json.filled_orIfBlank _
  case region => exact Json.filled_orIfBlank _
  case account => exact Json.filled_orIfBlank _
  case policy => exact Document.settled_of_ofJson? hpolicy

theorem ofJson_toJson {r : Resource} (h : r.Settled) : ofJson r.toJson = .ok r := by
  have kind_read : ResourceKind.ofJson (.str r.kind.name) = r.kind := by cases r.kind <;> rfl
  simp [ofJson, toJson, Json.required, Json.membersOf, Json.member, kind_read,
    Document.ofJson?_toJson? h.policy, h.name.eq, h.region.eq, h.account.eq, -bind_pure_comp]
  rfl

theorem rereads : Rereads ofJson toJson :=
  fun _ _ h => ofJson_toJson (settled_of_ofJson h)

end Resource

/-! ## Organization policies -/

namespace Target

theorem settled_of_ofJson {v : Json} {t : Target} (h : ofJson v = .ok t) : t.Settled := by
  obtain ⟨type, -, h⟩ := bind_eq_ok h
  obtain ⟨kind, -, h⟩ := bind_eq_ok h
  obtain ⟨ms, -, h⟩ := bind_eq_ok h
  obtain rfl := Except.ok.inj h
  constructor
  case id => exact Json.filled_orIfBlank _
  case arn => exact Json.filled_orIfBlank _
  case name => exact Json.filled_orIfBlank _

theorem ofJson_toJson {t : Target} (h : t.Settled) : ofJson t.toJson = .ok t := by
  have kind_read : TargetKind.ofJson (.str t.kind.name) = .ok t.kind := by cases t.kind <;> rfl
  simp [ofJson, toJson, Json.required, Json.membersOf, Json.member, kind_read, h.id.eq,
    h.arn.optional, h.name.optional, -bind_pure_comp]
  rfl

theorem rereads : Rereads ofJson toJson :=
  fun _ _ h => ofJson_toJson (settled_of_ofJson h)

end Target

namespace Attachment

theorem settled_of_ofJson {v : Json} {a : Attachment} (h : ofJson v = .ok a) : a.Settled := by
  obtain ⟨ms, -, h⟩ := bind_eq_ok h
  obtain ⟨policy, hpolicy, h⟩ := bind_eq_ok h
  obtain ⟨records, -, h⟩ := bind_eq_ok h
  obtain ⟨targets, htargets, h⟩ := bind_eq_ok h
  obtain rfl := Except.ok.inj h
  constructor
  case policy => exact Document.settled_of_ofJson hpolicy
  case targets => exact forall_of_mapM htargets fun _ _ => Target.settled_of_ofJson

theorem ofJson_toJson {a : Attachment} (h : a.Settled) : ofJson a.toJson = .ok a := by
  have policy_read : Document.ofJson (a.policy.toJson.orIfBlank (.obj [])) = .ok a.policy := by
    rw [Json.orIfBlank_of_not_blank rfl]
    exact Document.ofJson_toJson h.policy
  have targets_read : (a.targets.map Target.toJson).mapM Target.ofJson = .ok a.targets :=
    mapM_map_of_forall fun t ht => Target.ofJson_toJson (h.targets t ht)
  simp [ofJson, toJson, Json.membersOf, Json.member, Json.optionalItems_arr, policy_read,
    targets_read, -bind_pure_comp]
  rfl

theorem rereads : Rereads ofJson toJson :=
  fun _ _ h => ofJson_toJson (settled_of_ofJson h)

end Attachment

namespace Hierarchy

theorem settled_of_ofJson {v : Json} {h : Hierarchy} (ho : ofJson v = .ok h) : h.Settled := by
  obtain ⟨ms, -, ho⟩ := bind_eq_ok ho
  obtain ⟨units, -, ho⟩ := bind_eq_ok ho
  obtain rfl := Except.ok.inj ho
  exact Json.filled_orIfBlank _

theorem ofJson_toJson {h : Hierarchy} (hs : h.Settled) : ofJson h.toJson = .ok h := by
  simp [ofJson, toJson, Json.membersOf, Json.member, Json.optionalItems_arr,
    Json.Filled.eq hs, -bind_pure_comp]
  rfl

theorem rereads : Rereads ofJson toJson :=
  fun _ _ h => ofJson_toJson (settled_of_ofJson h)

end Hierarchy

/-! ## Snapshots -/

namespace Snapshot

theorem settled_of_withRest {ms : Json.Members} {principals : List Principal}
    {resources : List Resource} {s : Snapshot} (h : withRest ms principals resources = .ok s)
    (hprincipals : ∀ p ∈ principals, p.Settled) (hresources : ∀ r ∈ resources, r.Settled) :
    s.Settled := by
  obtain ⟨policies, -, h⟩ := bind_eq_ok h
  obtain ⟨guardrails, hguardrails, h⟩ := bind_eq_ok h
  obtain ⟨records, -, h⟩ := bind_eq_ok h
  obtain ⟨attachments, hattachments, h⟩ := bind_eq_ok h
  dsimp only at h
  split at h
  all_goals
    obtain ⟨hierarchy, hhierarchy, h⟩ := bind_eq_ok h
    obtain ⟨regions, -, h⟩ := bind_eq_ok h
    obtain rfl := Except.ok.inj h
    constructor
    case principals => exact hprincipals
    case resources => exact hresources
    case guardrails => exact forall_of_mapM hguardrails fun _ _ => Document.settled_of_ofJson
    case attachments => exact forall_of_mapM hattachments fun _ _ => Attachment.settled_of_ofJson
    case account => exact Json.filled_orIfBlank _
  case isTrue.hierarchy =>
    obtain rfl := Except.ok.inj hhierarchy
    intro u hu
    cases hu
  case isFalse.hierarchy =>
    obtain ⟨u, hu, rfl⟩ := map_eq_ok hhierarchy
    rintro _ ⟨⟩
    exact Hierarchy.settled_of_ofJson hu

theorem settled_of_ofJson {v : Json} {s : Snapshot} (h : ofJson v = .ok s) : s.Settled := by
  obtain ⟨ms, -, h⟩ := bind_eq_ok h
  obtain ⟨people, -, h⟩ := bind_eq_ok h
  obtain ⟨principals, hprincipals, h⟩ := bind_eq_ok h
  obtain ⟨things, -, h⟩ := bind_eq_ok h
  obtain ⟨resources, hresources, h⟩ := bind_eq_ok h
  exact settled_of_withRest h
    (forall_of_mapM hprincipals fun _ _ => Principal.settled_of_ofJson)
    (forall_of_mapM hresources fun _ _ => Resource.settled_of_ofJson)

theorem ofJson_toJson {s : Snapshot} (h : s.Settled) : ofJson s.toJson = .ok s := by
  have principals_read : (s.principals.map Principal.toJson).mapM Principal.ofJson =
      .ok s.principals :=
    mapM_map_of_forall fun p hp => Principal.ofJson_toJson (h.principals p hp)
  have resources_read : (s.resources.map Resource.toJson).mapM Resource.ofJson =
      .ok s.resources :=
    mapM_map_of_forall fun r hr => Resource.ofJson_toJson (h.resources r hr)
  have attachments_read : (s.attachments.map Attachment.toJson).mapM Attachment.ofJson =
      .ok s.attachments :=
    mapM_map_of_forall fun a ha => Attachment.ofJson_toJson (h.attachments a ha)
  simp [ofJson, toJson, withRest, Json.membersOf, Json.member, Json.optionalItems_arr,
    principals_read, resources_read, Document.mapM_written h.guardrails, attachments_read,
    h.account.eq, Json.shown_orIfBlank_empty, -bind_pure_comp]
  obtain ⟨principals, resources, guardrails, attachments, hierarchy, collectedAt, account,
    regions⟩ := s
  cases hierarchy with
  | none => rfl
  | some u =>
    have hierarchy_read : Hierarchy.ofJson u.toJson = .ok u :=
      Hierarchy.ofJson_toJson (h.hierarchy u rfl)
    dsimp only
    rw [if_neg (by simp [Hierarchy.toJson, Json.isBlank]), hierarchy_read]
    rfl

theorem rereads : Rereads ofJson toJson :=
  fun _ _ h => ofJson_toJson (settled_of_ofJson h)

end Snapshot

/-! ## All records -/

/-- **Records survive rereading.**  For each type of record, whatever its reader accepts and
gives is written to a record that the reader accepts and gives back unchanged. -/
theorem records_reread :
    Rereads Statement.ofJson Statement.toJson ∧ Rereads Document.ofJson Document.toJson ∧
      Rereads Principal.ofJson Principal.toJson ∧ Rereads Resource.ofJson Resource.toJson ∧
      Rereads Target.ofJson Target.toJson ∧ Rereads Attachment.ofJson Attachment.toJson ∧
      Rereads Hierarchy.ofJson Hierarchy.toJson ∧ Rereads Snapshot.ofJson Snapshot.toJson :=
  ⟨Statement.rereads, Document.rereads, Principal.rereads, Resource.rereads, Target.rereads,
    Attachment.rereads, Hierarchy.rereads, Snapshot.rereads⟩

/-- A document as percent-encoded text. -/
def looseDocument : Json := "%7B\"Statement\":\x7b\"Action\":\"s3:*\"\x7d\x7d"

/-- A snapshot in loose shapes: single items for lists, blank and missing fields, kinds in other
spellings, a number for a version and for an identifier. -/
def looseSnapshot : Json :=
  .obj [
    ("Principals", .arr [.obj [
      ("ARN", .int 7), ("Type", "USER"), ("Name", .bool false),
      ("TrustPolicy", .int 0), ("GroupMemberships", "ab")]]),
    ("Resources", .arr [.obj [
      ("ARN", .null), ("Type", "S3"),
      ("ResourcePolicy", .obj [
        ("Version", .int 2008),
        ("Statement", .obj [
          ("Effect", .bool true), ("Principal", .bool false), ("Action", .arr ["a", .int 1]),
          ("Condition", .arr [])])])]]),
    ("SCPAttachments", .arr [.obj [
      ("Targets", .arr [.obj [("Type", "organizational-unit"), ("ID", .int 3)]])]]),
    ("OUHierarchy", .obj [("ParentOUs", .null)]),
    ("AccountID", .arr [])]

theorem loose_records_reread :
    (∃ d, Document.ofJson looseDocument = .ok d ∧ Document.ofJson d.toJson = .ok d) ∧
      ∃ s, Snapshot.ofJson looseSnapshot = .ok s ∧ Snapshot.ofJson s.toJson = .ok s := by
  obtain ⟨-, document_rereads, -, -, -, -, -, snapshot_rereads⟩ := records_reread
  have hdocument : Document.ofJson looseDocument =
      .ok ⟨[⟨"Allow", ["s3:*"], [], .null, .null, ""⟩], "2012-10-17", ""⟩ := by cbv
  have hsnapshot : ∃ s, Snapshot.ofJson looseSnapshot = .ok s := ⟨_, rfl⟩
  obtain ⟨s, hs⟩ := hsnapshot
  exact ⟨⟨_, hdocument, document_rereads _ _ hdocument⟩, s, hs, snapshot_rereads _ _ hs⟩

end CloudAccess
