import CloudAccess.Proofs.Graph.Escapes
import CloudAccess.Proofs.Inventory.Decoding
import CloudAccess.Proofs.Json.Plain

/-!
# Saved snapshots load as they were

A record of proper values gives a snapshot that is written as a proper value (`KeepsProper`), and
what is written of a snapshot is read back.  So a snapshot that was read from a record and saved is
what is loaded:

    decode record = .ok s  →  saveSnapshot path s = .ok saved  →
      (saved.loadSnapshot path).outcome = .ok s
-/

namespace CloudAccess

/-- What a reader gives for a proper value is written as a proper value. -/
def KeepsProper {α : Type} (read : Json → Except Fault α) (write : α → Json) : Prop :=
  ∀ v x, v.Proper → read v = .ok x → (write x).Proper

/-! ## Fields -/

namespace Json

variable {v w : Json} {ms : Members}

theorem proper_of_member? (h : ∀ m ∈ ms, m.2.Proper) {name : String}
    (hw : member? name ms = some w) : w.Proper := by
  obtain ⟨ms₁, ms₂, rfl, -⟩ := List.lookup_eq_some_iff.1 hw
  exact h (name, w) (by simp)

theorem proper_member?_getD (h : ∀ m ∈ ms, m.2.Proper) (hw : w.Proper) (name : String) :
    ((member? name ms).getD w).Proper := by
  cases hm : member? name ms with
  | none => exact hw
  | some u => exact proper_of_member? h hm

theorem proper_member (h : ∀ m ∈ ms, m.2.Proper) (name : String) : (member name ms).Proper :=
  proper_member?_getD h .null name

theorem Proper.orIfBlank (hv : v.Proper) (hw : w.Proper) : (v.orIfBlank w).Proper := by
  unfold Json.orIfBlank
  split
  · exact hw
  · exact hv

theorem Proper.membersOf (h : v.Proper) (hms : v.membersOf = .ok ms) : ∀ m ∈ ms, m.2.Proper := by
  cases h with
  | obj _ _ proper =>
    obtain rfl := Except.ok.inj hms
    exact proper
  | _ => cases hms

theorem Proper.required (h : v.Proper) {name : String} (hw : required name v = .ok w) :
    w.Proper := by
  cases h with
  | obj _ _ proper =>
    unfold Json.required at hw
    dsimp only at hw
    split at hw
    · next hm =>
      obtain rfl := Except.ok.inj hw
      exact proper_of_member? proper hm
    · cases hw
  | _ => cases hw

theorem Proper.optionalItems (h : v.Proper) {items : List Json}
    (hitems : v.optionalItems = .ok items) : ∀ w ∈ items, w.Proper := by
  unfold Json.optionalItems at hitems
  split at hitems
  · obtain rfl := Except.ok.inj hitems
    nofun
  cases h with
  | arr _ proper =>
    obtain rfl := Except.ok.inj hitems
    exact proper
  | str s =>
    obtain rfl := Except.ok.inj hitems
    exact List.forall_mem_map.2 fun _ _ => .str _
  | obj ms _ _ =>
    obtain rfl := Except.ok.inj hitems
    exact List.forall_mem_map.2 fun _ _ => .str _
  | _ => cases hitems

theorem proper_arr_map {α : Type} {write : α → Json} {l : List α} (h : ∀ a ∈ l, (write a).Proper) :
    (arr (l.map write)).Proper := .arr _ (List.forall_mem_map.2 h)

theorem proper_unless {b : Bool} {name : String} (hv : v.Proper) :
    ∀ m ∈ (if b = true then [] else [(name, v)]), m.2.Proper := by
  cases b with
  | true => nofun
  | false => exact List.forall_mem_singleton.2 hv

end Json

/-- What is read from proper items is written as a proper list. -/
theorem proper_of_mapM {α ε : Type} {read : Json → Except ε α} {write : α → Json}
    {items : List Json} {as : List α} (hread : items.mapM read = .ok as)
    (hitems : ∀ v ∈ items, v.Proper) (h : ∀ v a, v.Proper → read v = .ok a → (write a).Proper) :
    (Json.arr (as.map write)).Proper := by
  refine Json.proper_arr_map fun a ha => ?_
  obtain ⟨v, hv, hva⟩ := (mem_of_mapM hread a).1 ha
  exact h v a (hitems v hv) hva

/-! ## Statements and documents -/

namespace Statement

theorem proper_conditionOf {v : Json} (hv : v.Proper) : (conditionOf v).Proper := by
  unfold conditionOf
  split
  · exact hv
  · exact .null

theorem keepsProper : KeepsProper ofJson toJson := by
  intro v s hv h
  cases hv with
  | obj ms _ proper =>
    obtain rfl := Except.ok.inj h
    have htexts (l : List String) : (Json.arr (l.map .str)).Proper :=
      Json.proper_arr_map fun _ _ => .str _
    refine .obj _ ?_ ?_
    · cases String.isEmpty _ <;> cases isNull _ <;> cases Json.isBlank _ <;> simp
    · simp only [List.forall_mem_append, List.forall_mem_cons]
      exact ⟨⟨⟨⟨Json.proper_unless (.str _), .str _, nofun⟩,
        Json.proper_unless (Json.proper_member proper _)⟩, htexts _, htexts _, nofun⟩,
        Json.proper_unless (proper_conditionOf (Json.proper_member proper _))⟩
  | _ => cases h

end Statement

namespace Document

theorem proper_statementRecords {v : Json} {records : List Json} (hv : v.Proper)
    (h : statementRecords v = .ok records) : ∀ r ∈ records, r.Proper := by
  unfold statementRecords at h
  split at h
  · obtain rfl := Except.ok.inj h
    nofun
  cases hv with
  | obj ms distinct proper =>
    obtain rfl := Except.ok.inj h
    exact List.forall_mem_singleton.2 (.obj ms distinct proper)
  | arr _ proper =>
    obtain rfl := Except.ok.inj h
    exact proper
  | _ => cases h

theorem proper_of_ofMembers {ms : Json.Members} {d : Document} (hms : ∀ m ∈ ms, m.2.Proper)
    (h : ofMembers ms = .ok d) : d.toJson.Proper := by
  obtain ⟨records, hrecords, h⟩ := bind_eq_ok h
  obtain ⟨statements, hstatements, h⟩ := bind_eq_ok h
  obtain rfl := Except.ok.inj h
  have hproper := proper_statementRecords (Json.proper_member hms _) hrecords
  refine .obj _ ?_ ?_
  · cases String.isEmpty _ <;> simp
  · simp only [List.forall_mem_append, List.forall_mem_cons]
    exact ⟨⟨⟨.str _, nofun⟩, Json.proper_unless (.str _)⟩,
      proper_of_mapM hstatements hproper Statement.keepsProper, nofun⟩

theorem proper_of_ofText {text : String} {d : Document} (h : ofText text = .ok d) :
    d.toJson.Proper := by
  obtain ⟨text', ms, hread, hd⟩ := members_of_ofText h
  cases Json.proper_of_read hread with
  | obj _ _ proper => exact proper_of_ofMembers proper hd

theorem keepsProper : KeepsProper ofJson toJson := by
  intro v d hv h
  cases hv with
  | str text => exact proper_of_ofText h
  | obj ms _ proper => exact proper_of_ofMembers proper h
  | _ => cases h

theorem keepsProper? : KeepsProper ofJson? toJson? := by
  intro v o hv h
  unfold ofJson? at h
  split at h
  · obtain rfl := Except.ok.inj h
    exact .null
  · obtain ⟨d, hd, rfl⟩ := map_eq_ok h
    exact keepsProper v d hv hd

end Document

/-! ## Principals and resources -/

theorem Principal.keepsProper : KeepsProper ofJson toJson := by
  intro v p hv h
  obtain ⟨arn, harn, h⟩ := bind_eq_ok h
  obtain ⟨ms, hms, h⟩ := bind_eq_ok h
  obtain ⟨kind, -, h⟩ := bind_eq_ok h
  obtain ⟨documents, hdocuments, h⟩ := bind_eq_ok h
  obtain ⟨policies, hpolicies, h⟩ := bind_eq_ok h
  obtain ⟨trust, htrust, h⟩ := bind_eq_ok h
  obtain ⟨boundary, hboundary, h⟩ := bind_eq_ok h
  obtain ⟨groups, hgroups, h⟩ := bind_eq_ok h
  obtain rfl := Except.ok.inj h
  have hmember := Json.proper_member (hv.membersOf hms)
  refine .obj _ (by simp) ?_
  simp only [List.forall_mem_cons]
  refine ⟨hv.required harn, .str _, (hmember _).orIfBlank (.str _), (hmember _).orIfBlank (.str _),
    ?_, ?_, ?_, ?_, nofun⟩
  · exact proper_of_mapM hpolicies ((hmember _).optionalItems hdocuments) Document.keepsProper
  · exact Document.keepsProper? _ _ (hmember _) htrust
  · exact Document.keepsProper? _ _ (hmember _) hboundary
  · exact .arr _ ((hmember _).optionalItems hgroups)

theorem Resource.keepsProper : KeepsProper ofJson toJson := by
  intro v r hv h
  obtain ⟨arn, harn, h⟩ := bind_eq_ok h
  obtain ⟨ms, hms, h⟩ := bind_eq_ok h
  obtain ⟨policy, hpolicy, h⟩ := bind_eq_ok h
  obtain rfl := Except.ok.inj h
  have hmember := Json.proper_member (hv.membersOf hms)
  refine .obj _ (by simp) ?_
  simp only [List.forall_mem_cons]
  exact ⟨hv.required harn, .str _, (hmember _).orIfBlank (.str _), (hmember _).orIfBlank (.str _),
    (hmember _).orIfBlank (.str _), Document.keepsProper? _ _ (hmember _) hpolicy, nofun⟩

/-! ## Organization policies -/

theorem Target.keepsProper : KeepsProper ofJson toJson := by
  intro v t hv h
  obtain ⟨type, -, h⟩ := bind_eq_ok h
  obtain ⟨kind, -, h⟩ := bind_eq_ok h
  obtain ⟨ms, hms, h⟩ := bind_eq_ok h
  obtain rfl := Except.ok.inj h
  have hfilled (name : String) := (Json.proper_member (hv.membersOf hms) name).orIfBlank (.str "")
  refine .obj _ ?_ ?_
  · cases Json.isBlank _ <;> cases Json.isBlank _ <;> simp
  · simp only [List.forall_mem_append, List.forall_mem_cons]
    exact ⟨⟨⟨.str _, hfilled _, nofun⟩, Json.proper_unless (hfilled _)⟩,
      Json.proper_unless (hfilled _)⟩

theorem Attachment.keepsProper : KeepsProper ofJson toJson := by
  intro v a hv h
  obtain ⟨ms, hms, h⟩ := bind_eq_ok h
  obtain ⟨policy, hpolicy, h⟩ := bind_eq_ok h
  obtain ⟨records, hrecords, h⟩ := bind_eq_ok h
  obtain ⟨targets, htargets, h⟩ := bind_eq_ok h
  obtain rfl := Except.ok.inj h
  have hmember := Json.proper_member (hv.membersOf hms)
  refine .obj _ (by simp) ?_
  simp only [List.forall_mem_cons]
  refine ⟨?_, ?_, nofun⟩
  · exact Document.keepsProper _ _ ((hmember _).orIfBlank (.obj [] List.nodup_nil nofun)) hpolicy
  · exact proper_of_mapM htargets ((hmember _).optionalItems hrecords) Target.keepsProper

theorem Hierarchy.keepsProper : KeepsProper ofJson toJson := by
  intro v hi hv h
  obtain ⟨ms, hms, h⟩ := bind_eq_ok h
  obtain ⟨units, hunits, h⟩ := bind_eq_ok h
  obtain rfl := Except.ok.inj h
  have hmember := Json.proper_member (hv.membersOf hms)
  refine .obj _ (by simp) ?_
  simp only [List.forall_mem_cons]
  exact ⟨(hmember _).orIfBlank (.str _), .arr _ ((hmember _).optionalItems hunits), nofun⟩

/-! ## Snapshots -/

namespace Snapshot

theorem keepsProper : KeepsProper ofJson toJson := by
  intro v s hv h
  obtain ⟨ms, hms, h⟩ := bind_eq_ok h
  obtain ⟨people, hpeople, h⟩ := bind_eq_ok h
  obtain ⟨principals, hprincipals, h⟩ := bind_eq_ok h
  obtain ⟨things, hthings, h⟩ := bind_eq_ok h
  obtain ⟨resources, hresources, h⟩ := bind_eq_ok h
  obtain ⟨policies, hpolicies, h⟩ := bind_eq_ok h
  obtain ⟨guardrails, hguardrails, h⟩ := bind_eq_ok h
  obtain ⟨records, hrecords, h⟩ := bind_eq_ok h
  obtain ⟨attachments, hattachments, h⟩ := bind_eq_ok h
  have hmember := Json.proper_member (hv.membersOf hms)
  have hitems {name : String} {items : List Json}
      (h : (Json.member name ms).optionalItems = .ok items) := (hmember name).optionalItems h
  dsimp only at h
  split at h
  all_goals
    obtain ⟨hierarchy, hhierarchy, h⟩ := bind_eq_ok h
    obtain ⟨regions, hregions, h⟩ := bind_eq_ok h
    obtain rfl := Except.ok.inj h
    refine .obj _ (by simp) ?_
    simp only [List.forall_mem_cons]
    refine ⟨proper_of_mapM hprincipals (hitems hpeople) Principal.keepsProper,
      proper_of_mapM hresources (hitems hthings) Resource.keepsProper,
      proper_of_mapM hguardrails (hitems hpolicies) Document.keepsProper,
      proper_of_mapM hattachments (hitems hrecords) Attachment.keepsProper, ?_,
      .str _, (hmember _).orIfBlank (.str _), .arr _ (hitems hregions), nofun⟩
  · obtain rfl := Except.ok.inj hhierarchy
    exact .null
  · obtain ⟨u, hu, rfl⟩ := map_eq_ok hhierarchy
    exact Hierarchy.keepsProper _ _ (hmember _) hu

end Snapshot

/-! ## Files -/

namespace Files

/-- What is written to a file depends on nothing but whether the file can be opened. -/
theorem write_of_open {fs opened : Files} {path : String} (h : fs.openForSnapshot path = .ok opened)
    (bytes : List UInt8) : ∃ saved, fs.write path bytes = .ok saved := by
  obtain ⟨place, hplace, -⟩ := bind_eq_ok (mapError_eq_ok h)
  exact ⟨_, by rw [write, hplace, ok_bind]; rfl⟩

/-- **Saved snapshots load as they were.**  A snapshot that was read from a record of proper values
can be saved wherever a file can be opened for it, and loading the file gives the snapshot. -/
theorem loadSnapshot_saved {data : Json} {s : Snapshot} {fs opened : Files} {path : String}
    (hdata : data.Proper) (hdecode : Snapshot.decode data = .ok s)
    (hopen : fs.openForSnapshot path = .ok opened) :
    ∃ saved, fs.saveSnapshot path s = .ok saved ∧ (saved.loadSnapshot path).outcome = .ok s := by
  have hread : Snapshot.ofJson data = .ok s := Snapshot.decode_eq_ok_iff.1 hdecode
  have hproper : s.toJson.Proper := Snapshot.keepsProper data s hdata hread
  have hreread : Snapshot.decode s.toJson = .ok s :=
    Snapshot.decode_eq_ok_iff.2 (Snapshot.ofJson_toJson (Snapshot.settled_of_ofJson hread))
  obtain ⟨saved, hsaved⟩ := write_of_open hopen (Text.Utf8.encode (Json.writeIndented s.toJson))
  have hrecord : saved.snapshotRecord path = .ok s.toJson :=
    (snapshotRecord_eq_ok saved path s.toJson).2
      ⟨⟨_, rfl⟩, _, read_write hsaved, jsonOfBytes_encode hproper⟩
  refine ⟨saved, ?_, ?_⟩
  · rw [saveSnapshot, hsaved]
    rfl
  · rw [loadSnapshot_outcome, hrecord, ok_bind, hreread]
    rfl

/-- A snapshot with a quote, a control character and characters beyond the first sixteen bits in
its texts, and with values of all kinds where a principal and a condition are kept as given. -/
def awkwardRecord : Json :=
  .obj [
    ("Principals", .arr [.obj [
      ("ARN", "arn:aws:iam::1:user/\"\\\u0007\""),
      ("Policies", .arr [.obj [
        ("Statement", .obj [
          ("Action", "s3:*"),
          ("Principal", .obj [("𝄞", .arr [.null, .int (-12345678901234567890), .arr [], .obj []])]),
          ("Condition", .obj [("NumericEquals", .obj [
            ("size", .arr [.float .quietNaN, .float (.infinity true), .float ⟨1⟩,
              .float ⟨0x3FB999999999999A⟩, .float ⟨0x7FEFFFFFFFFFFFFF⟩])])])])]])]]),
    ("Regions", .arr [.bool true, "\u00e9\n\x7f"])]

theorem proper_awkwardRecord : awkwardRecord.Proper := by
  have hsize : (natDigits 12345678901234567890).length ≤ integerDigits := by decide
  have hinfinite : (Double.infinity true).isNaN = false := by decide
  have hleast : (Double.mk 1).isNaN = false := by decide
  have htenth : (Double.mk 0x3FB999999999999A).isNaN = false := by decide
  have hlargest : (Double.mk 0x7FEFFFFFFFFFFFFF).isNaN = false := by decide
  simp [awkwardRecord, Json.proper_obj_iff, Json.proper_arr_iff, Json.proper_int_iff,
    Json.proper_float_iff, Json.Proper.null, Json.Proper.str, Json.Proper.bool, hsize, hinfinite,
    hleast, htenth, hlargest]

theorem loadSnapshot_saved_awkwardRecord :
    awkwardRecord.Proper ∧ ∃ s saved, Snapshot.decode awkwardRecord = .ok s ∧
      saveSnapshot .empty "snapshot.json" s = .ok saved ∧
      (saved.loadSnapshot "snapshot.json").outcome = .ok s := by
  obtain ⟨s, hs⟩ : ∃ s, Snapshot.decode awkwardRecord = .ok s := ⟨_, rfl⟩
  obtain ⟨opened, hopened⟩ : ∃ opened, openForSnapshot .empty "snapshot.json" = .ok opened :=
    ⟨_, rfl⟩
  obtain ⟨saved, hsaved, hloaded⟩ := loadSnapshot_saved proper_awkwardRecord hs hopened
  exact ⟨proper_awkwardRecord, s, saved, hs, hsaved, hloaded⟩

end Files
end CloudAccess
