import CloudAccess.Proofs.Graph.History
import CloudAccess.Proofs.OrderedMap
import CloudAccess.Proofs.Reach.Roles

/-!
# What a graph answers, told by what was recorded

Every entry that is recorded goes into one of the maps of a graph, at the end of what is there.  So
a graph is made of as many logs as it has maps (`Graph.ofLogs`), and recording one entry more makes
it that of a log which is longer by one:

    (ofLogs es).record e = .ok (ofLogs (es ++ [e]))                    (record_ofLogs)

What each reader answers is then read off its log, whatever else was recorded in between:

    ofEntries es = .ok g → g.Answers es                                (answers_ofEntries)

A record replaces an earlier one of its name; edges and trust are kept beside the earlier ones.
-/

namespace CloudAccess

namespace Graph

/-! ## The logs -/

namespace Entry

/-- What an entry is recorded under is a text. -/
def Keyed : Entry → Prop
  | principal P => ∃ a, P.arn = .str a
  | resource R => ∃ a, R.arn = .str a
  | _ => True

/-- The record of a principal, under its name. -/
def principalRecord? : Entry → Option (String × Principal)
  | principal P => match P.arn with
    | .str a => some (a, P)
    | _ => none
  | _ => none

/-- The record of a resource, under its name. -/
def resourceRecord? : Entry → Option (String × Resource)
  | resource R => match R.arn with
    | .str a => some (a, R)
    | _ => none
  | _ => none

/-- What an owner is allowed, or denied, under an action pattern. -/
def edge? (deny : Bool) : Entry → Option (String × String × Edge)
  | edge owner action deny' pattern conditions label =>
    if deny' = deny then some (owner, action, ⟨.str pattern, conditions, label⟩) else none
  | _ => none

/-- Who is trusted with a role. -/
def trust? : Entry → Option (String × String)
  | trust trustor role => some (role, trustor)
  | _ => none

/-- The records of principals, under their names. -/
def principalRecords (es : List Entry) : List (String × Principal) := es.filterMap principalRecord?

/-- The records of resources, under their names. -/
def resourceRecords (es : List Entry) : List (String × Resource) := es.filterMap resourceRecord?

/-- The allow or the deny edges, under their owners and action patterns. -/
def edges (deny : Bool) (es : List Entry) : List (String × String × Edge) :=
  es.filterMap (edge? deny)

/-- Those who are trusted, under the roles that they are trusted with. -/
def trusts (es : List Entry) : List (String × String) := es.filterMap trust?

end Entry

/-- What a graph answers, when this was recorded. -/
structure Answers (g : Graph) (es : List Entry) : Prop where
  /-- The last record of a name is the one that counts. -/
  principal : ∀ a : String,
    g.principal? a = (itemsUnder a (Entry.principalRecords es)).getLast?
  resource : ∀ a : String, g.resource? a = (itemsUnder a (Entry.resourceRecords es)).getLast?
  /-- Each name is listed once, in the order in which they came first, by its last record. -/
  principals : List.Forall₂
    (fun a P => (itemsUnder a (Entry.principalRecords es)).getLast? = some P)
    ((Entry.principalRecords es).map (·.1)).eraseDups g.principals.values
  resources : List.Forall₂
    (fun a R => (itemsUnder a (Entry.resourceRecords es)).getLast? = some R)
    ((Entry.resourceRecords es).map (·.1)).eraseDups g.resources.values
  guardrails : g.guardrails = Entry.guardrails es
  /-- Those who are trusted with a role, in the order in which this was recorded. -/
  trustors : ∀ r : String, g.trustors r = itemsUnder r (Entry.trusts es)
  /-- A role may be assumed by those whom it trusts by name, or by everyone. -/
  mayAssume : ∀ p r : String, g.mayAssume (.str p) r = true ↔
    p ∈ g.trustors r ∨ Arn.anyone ∈ g.trustors r
  mem_rolesOpenTo : ∀ p r : String, .text r ∈ g.rolesOpenTo (.str p) ↔
    g.mayAssume (.str p) r = true
  /-- The roles that someone may assume, in the order in which they were first trusted to anyone. -/
  rolesOpenTo : ∀ p : String, g.rolesOpenTo (.str p) =
    (((Entry.trusts es).map (·.1)).eraseDups.filter fun r =>
      admits (itemsUnder r (Entry.trusts es)) (.str p)).map .text
  nodup_rolesOpenTo : ∀ p : String, (g.rolesOpenTo (.str p)).Nodup
  /-- The action patterns under which something is allowed on a resource, each once, in the order
  in which they were first used. -/
  openActions : ∀ p v : String, ∃ actions, g.openActions p (.str v) = .ok actions ∧
    actions.Sublist ((itemsUnder p (Entry.edges false es)).map (·.1)).eraseDups ∧
    ∀ a, a ∈ actions ↔ ∃ pattern conditions label,
      .edge p a false pattern conditions label ∈ es ∧ resourceMatches pattern v = true
  allowsExactly : ∀ p a q : String, g.allowsExactly p a (.str q) = true ↔
    ∃ conditions label, .edge p a false q conditions label ∈ es
  /-- Names count once, everything else as often as it was recorded. -/
  sizes : g.sizes = {
    principals := ((Entry.principalRecords es).map (·.1)).eraseDups.length
    resources := ((Entry.resourceRecords es).map (·.1)).eraseDups.length
    allows := (Entry.edges false es).length
    denies := (Entry.edges true es).length
    trusts := (Entry.trusts es).length
    guardrails := (Entry.guardrails es).length }

end Graph

/-- The pattern of an edge is a text and matches another one. -/
def Edge.reaches (e : Edge) (t : String) : Bool :=
  match e.pattern with
  | .str q => resourceMatches q t
  | _ => false

/-! ## Tests that always answer -/

theorem anyPasses_ok {α : Type} {test : α → Except Fault Bool} {p : α → Bool} {l : List α}
    (h : ∀ a ∈ l, test a = .ok (p a)) : anyPasses test l = .ok (l.any p) := by
  induction l with
  | nil => rfl
  | cons a rest ih =>
    rw [anyPasses, h a List.mem_cons_self, ok_bind, List.any_cons]
    cases p a with
    | true => rfl
    | false => exact ih fun b hb => h b (List.mem_cons_of_mem _ hb)

theorem filterM_ok {ε α : Type} {test : α → Except ε Bool} {p : α → Bool} {l : List α}
    (h : ∀ a ∈ l, test a = .ok (p a)) : l.filterM test = .ok (l.filter p) := by
  have haux (acc : List α) : l.filterAuxM test acc = .ok ((l.filter p).reverse ++ acc) := by
    induction l generalizing acc with
    | nil => rfl
    | cons a rest ih =>
      have hrest := ih fun b hb => h b (List.mem_cons_of_mem _ hb)
      rw [List.filterAuxM, h a List.mem_cons_self, ok_bind, hrest, List.filter_cons]
      cases p a with
      | true => simp
      | false => rfl
  unfold List.filterM
  rw [haux, ok_bind, List.append_nil, List.reverse_reverse]
  rfl

/-! ## Logs under texts -/

/-- A log under texts, as one under identifiers. -/
def underTexts {α : Type} (log : List (String × α)) : List (Identifier × α) :=
  log.map (Prod.map Identifier.text id)

section UnderTexts

variable {α : Type} (log : List (String × α))

theorem itemsUnder_underTexts (a : String) :
    itemsUnder (Identifier.text a) (underTexts log) = itemsUnder a log :=
  itemsUnder_map (fun _ _ => Identifier.text_beq _ _) a log

theorem eraseDups_underTexts :
    ((underTexts log).map (·.1)).eraseDups = (log.map (·.1)).eraseDups.map Identifier.text := by
  rw [← Identifier.eraseDups_map_text]
  unfold underTexts
  rw [List.map_map, List.map_map]
  rfl

/-- One item more is put at the end of what a log makes, if there is one. -/
theorem made_snoc {ε β : Type} (make : List (Identifier × α) → β) (put : β → Identifier → α → β)
    (hput : ∀ log k a, make (log ++ [(k, a)]) = put (make log) k a)
    (f : ε → Option (String × α)) (es : List ε) (e : ε) :
    make (underTexts ((es ++ [e]).filterMap f)) =
      (f e).elim (make (underTexts (es.filterMap f))) fun r =>
        put (make (underTexts (es.filterMap f))) (.text r.1) r.2 := by
  unfold underTexts
  rw [List.filterMap_append, List.map_append, List.filterMap_cons, List.filterMap_nil]
  cases f e with
  | none => exact congrArg make (List.append_nil _)
  | some r => exact hput _ _ _

theorem mem_itemsUnder {a : String} {x : α} : x ∈ itemsUnder a log ↔ (a, x) ∈ log := by
  unfold itemsUnder
  rw [List.mem_map]
  constructor
  · rintro ⟨⟨b, y⟩, he, rfl⟩
    rw [List.mem_filter, beq_iff_eq] at he
    exact he.2 ▸ he.1
  · intro he
    exact ⟨(a, x), List.mem_filter.2 ⟨he, BEq.rfl⟩, rfl⟩

/-- There is one value for each name, the last record under it. -/
theorem values_ofList_underTexts :
    List.Forall₂ (fun a x => (itemsUnder a log).getLast? = some x) (log.map (·.1)).eraseDups
      (OrderedMap.ofList (underTexts log)).values := by
  have h := OrderedMap.values_ofList (underTexts log)
  rw [eraseDups_underTexts, List.forall₂_map_left_iff] at h
  exact h.imp fun a x hx => (itemsUnder_underTexts log a) ▸ hx

theorem size_ofList_underTexts :
    (OrderedMap.ofList (underTexts log)).size = (log.map (·.1)).eraseDups.length := by
  rw [(values_ofList_underTexts log).length_eq]
  exact (List.length_map _).symm

end UnderTexts

namespace EdgeIndex

/-- The index that is made of edges, under their owners and action patterns. -/
def ofLog (log : List (Identifier × String × Edge)) : EdgeIndex :=
  .logged (fun e held => (held.getD .empty).push e.1 e.2) log

theorem ofLog_snoc (log : List (Identifier × String × Edge)) (owner : Identifier)
    (e : String × Edge) : ofLog (log ++ [(owner, e)]) = (ofLog log).add owner e.1 e.2 :=
  OrderedMap.logged_snoc _ log (owner, e)

theorem length_list (ix : EdgeIndex) :
    ix.list.length = (ix.values.map fun held => held.values.flatten.length).sum := by
  unfold list OrderedMap.values
  rw [List.length_flatMap, List.map_map]
  congr 1
  refine List.map_congr_left fun e _ => ?_
  rw [List.length_flatMap, Function.comp_apply, List.length_flatten, List.map_map]
  simp only [List.length_map, Function.comp_def]

theorem length_list_add (ix : EdgeIndex) (owner : Identifier) (action : String) (e : Edge) :
    (ix.add owner action e).list.length = ix.list.length + 1 := by
  rw [length_list, length_list]
  exact OrderedMap.sum_values_alter rfl (fun held => held.length_flatten_push action e) ix owner

variable (log : List (String × String × Edge))

/-- The edges of an owner are those that the log has under it. -/
theorem of_ofLog (p : String) : (ofLog (underTexts log)).of p = .gather (itemsUnder p log) := by
  unfold of ofLog
  rw [OrderedMap.get?_logged, itemsUnder_underTexts,
    OrderedMap.getD_foldl_some fun (held : OrderedMap String (List Edge)) (e : String × Edge) =>
      held.push e.1 e.2]
  rfl

theorem length_list_ofLog : (ofLog (underTexts log)).list.length = log.length := by
  rw [length_list]
  unfold ofLog
  rw [OrderedMap.sum_values_logged _ (fun _ => rfl) fun e held =>
    OrderedMap.length_flatten_push held e.1 e.2]
  exact List.length_map _

end EdgeIndex

namespace Graph

/-! ## Recording -/

/-- The graph that is made of the logs of some entries. -/
def ofLogs (es : List Entry) : Graph where
  principals := .ofList (underTexts (Entry.principalRecords es))
  resources := .ofList (underTexts (Entry.resourceRecords es))
  allows := .ofLog (underTexts (Entry.edges false es))
  denies := .ofLog (underTexts (Entry.edges true es))
  trust := .gather (underTexts (Entry.trusts es))
  guardrails := Entry.guardrails es

/-- The log that an entry belongs to gets longer by it. -/
theorem ofLogs_snoc (es : List Entry) (e : Entry) : ofLogs (es ++ [e]) = {
    principals := e.principalRecord?.elim (ofLogs es).principals fun r =>
      (ofLogs es).principals.insert (.text r.1) r.2
    resources := e.resourceRecord?.elim (ofLogs es).resources fun r =>
      (ofLogs es).resources.insert (.text r.1) r.2
    allows := (e.edge? false).elim (ofLogs es).allows fun r =>
      (ofLogs es).allows.add (.text r.1) r.2.1 r.2.2
    denies := (e.edge? true).elim (ofLogs es).denies fun r =>
      (ofLogs es).denies.add (.text r.1) r.2.1 r.2.2
    trust := e.trust?.elim (ofLogs es).trust fun r => (ofLogs es).trust.push (.text r.1) r.2
    guardrails := e.guardrail?.elim (ofLogs es).guardrails fun d =>
      (ofLogs es).guardrails ++ [d] } := by
  have hguardrails : Entry.guardrails (es ++ [e]) =
      e.guardrail?.elim (Entry.guardrails es) fun d => Entry.guardrails es ++ [d] := by
    rw [Entry.guardrails_snoc]
    cases e.guardrail? with
    | none => exact List.append_nil _
    | some d => rfl
  have hedges (deny : Bool) := made_snoc EdgeIndex.ofLog
    (fun ix owner e => ix.add owner e.1 e.2) EdgeIndex.ofLog_snoc (Entry.edge? deny) es e
  unfold ofLogs Entry.principalRecords Entry.resourceRecords Entry.edges Entry.trusts
  rw [made_snoc OrderedMap.ofList OrderedMap.insert OrderedMap.ofList_snoc,
    made_snoc OrderedMap.ofList OrderedMap.insert OrderedMap.ofList_snoc, hedges, hedges,
    made_snoc OrderedMap.gather OrderedMap.push OrderedMap.gather_snoc, hguardrails]

/-- An entry more goes to the end of one log. -/
theorem record_ofLogs (es : List Entry) {e : Entry} (h : e.Keyed) :
    (ofLogs es).record e = .ok (ofLogs (es ++ [e])) := by
  rw [ofLogs_snoc]
  cases e with
  | principal P =>
    obtain ⟨arn, kind, name, account, policies, trust, boundary, groups⟩ := P
    obtain ⟨a, rfl⟩ := h
    rfl
  | resource R =>
    obtain ⟨arn, kind, name, region, account, policy⟩ := R
    obtain ⟨a, rfl⟩ := h
    rfl
  | edge owner action deny pattern conditions label => cases deny <;> rfl
  | trust trustor role => rfl
  | guardrail d => rfl

theorem ofEntries_keyed {es : List Entry} (h : ∀ e ∈ es, e.Keyed) :
    ofEntries es = .ok (ofLogs es) := by
  induction es using List.reverseRecOn with
  | nil => rfl
  | append_singleton es e ih =>
    have hes := ih fun e' he => h e' (List.mem_append_left _ he)
    unfold ofEntries at hes ⊢
    rw [List.foldlM_append, hes, ok_bind, List.foldlM_cons,
      record_ofLogs es (h e (List.mem_append_right _ List.mem_cons_self)), ok_bind]
    rfl

/-! ## Readers -/

section Readers

variable (es : List Entry)

theorem principal?_ofLogs (a : String) :
    (ofLogs es).principal? a = (itemsUnder a (Entry.principalRecords es)).getLast? := by
  rw [← itemsUnder_underTexts]
  exact OrderedMap.get?_ofList _ _

theorem resource?_ofLogs (a : String) :
    (ofLogs es).resource? a = (itemsUnder a (Entry.resourceRecords es)).getLast? := by
  rw [← itemsUnder_underTexts]
  exact OrderedMap.get?_ofList _ _

theorem trustors_ofLogs (r : String) :
    (ofLogs es).trustors r = itemsUnder r (Entry.trusts es) := by
  rw [← itemsUnder_underTexts]
  exact OrderedMap.getD_gather _ _

theorem admits_iff {trustors : List String} {p : String} :
    admits trustors (.str p) = true ↔ p ∈ trustors ∨ Arn.anyone ∈ trustors := by
  unfold admits
  rw [Bool.or_eq_true, List.contains_iff_mem, List.contains_iff_mem]
  exact or_comm

theorem rolesOpenTo_ofLogs (p : String) : (ofLogs es).rolesOpenTo (.str p) =
    (((Entry.trusts es).map (·.1)).eraseDups.filter fun r =>
      admits (itemsUnder r (Entry.trusts es)) (.str p)).map .text := by
  unfold rolesOpenTo
  have hentries : (ofLogs es).trust.entries =
      ((Entry.trusts es).map (·.1)).eraseDups.map fun r =>
        (Identifier.text r, itemsUnder r (Entry.trusts es)) := by
    refine (OrderedMap.entries_gather _).trans ?_
    rw [eraseDups_underTexts, List.map_map]
    simp only [Function.comp_def, itemsUnder_underTexts]
  rw [hentries, List.filter_map, List.map_map]
  rfl

/-- A role is open to those who may assume it, also when it was never trusted to anyone. -/
theorem mem_rolesOpenTo_ofLogs (p r : String) :
    .text r ∈ (ofLogs es).rolesOpenTo (.str p) ↔ (ofLogs es).mayAssume (.str p) r = true := by
  unfold mayAssume
  rw [rolesOpenTo_ofLogs, Identifier.mem_map_text, List.mem_filter, List.mem_eraseDups,
    trustors_ofLogs, and_iff_right_iff_imp, admits_iff]
  simp only [mem_itemsUnder, List.mem_map]
  rintro (h | h)
  · exact ⟨_, h, rfl⟩
  · exact ⟨_, h, rfl⟩

theorem nodup_rolesOpenTo_ofLogs (p : String) : ((ofLogs es).rolesOpenTo (.str p)).Nodup := by
  rw [rolesOpenTo_ofLogs]
  exact ((nodup_eraseDups _).filter _).map fun _ _ => Identifier.text_inj

theorem mem_edges {deny : Bool} {owner action : String} {e : Edge} :
    (owner, action, e) ∈ Entry.edges deny es ↔ ∃ pattern conditions label,
      e = ⟨.str pattern, conditions, label⟩ ∧
        .edge owner action deny pattern conditions label ∈ es := by
  unfold Entry.edges
  rw [List.mem_filterMap]
  constructor
  · rintro ⟨entry, hm, he⟩
    cases entry with
    | edge owner' action' deny' pattern conditions label =>
      simp only [Entry.edge?, Option.ite_none_right_eq_some, Option.some.injEq, Prod.mk.injEq] at he
      obtain ⟨rfl, rfl, rfl, rfl⟩ := he
      exact ⟨pattern, conditions, label, rfl, hm⟩
    | _ => cases he
  · rintro ⟨pattern, conditions, label, rfl, hm⟩
    exact ⟨_, hm, if_pos rfl⟩

/-- The edges of an owner under an action pattern are those that were recorded so. -/
theorem mem_edges_under {deny : Bool} {owner action : String} {e : Edge} :
    e ∈ itemsUnder action (itemsUnder owner (Entry.edges deny es)) ↔
      ∃ pattern conditions label, e = ⟨.str pattern, conditions, label⟩ ∧
        .edge owner action deny pattern conditions label ∈ es := by
  rw [mem_itemsUnder, mem_itemsUnder, mem_edges]

theorem openActions_ofLogs (p v : String) : (ofLogs es).openActions p (.str v) =
    .ok (((itemsUnder p (Entry.edges false es)).map (·.1)).eraseDups.filter fun a =>
      (itemsUnder a (itemsUnder p (Entry.edges false es))).any (·.reaches v)) := by
  have hof : (ofLogs es).allows.of p = .gather (itemsUnder p (Entry.edges false es)) :=
    EdgeIndex.of_ofLog _ p
  unfold openActions
  rw [hof, OrderedMap.entries_gather,
    filterM_ok (p := fun (held : String × List Edge) => held.2.any (·.reaches v)), ok_bind,
    List.filter_map, List.map_map]
  · simp only [Function.comp_def, List.map_id']
    rfl
  · intro held hheld
    obtain ⟨a, -, rfl⟩ := List.mem_map.1 hheld
    refine anyPasses_ok fun e he => ?_
    obtain ⟨pattern, conditions, label, rfl, -⟩ := (mem_edges_under es).1 he
    rfl

theorem mem_openActions_ofLogs (p v : String) : ∃ actions,
    (ofLogs es).openActions p (.str v) = .ok actions ∧
      actions.Sublist ((itemsUnder p (Entry.edges false es)).map (·.1)).eraseDups ∧
      ∀ a, a ∈ actions ↔ ∃ pattern conditions label,
        .edge p a false pattern conditions label ∈ es ∧ resourceMatches pattern v = true := by
  refine ⟨_, openActions_ofLogs es p v, List.filter_sublist, fun a => ?_⟩
  rw [List.mem_filter, List.mem_eraseDups, List.mem_map, List.any_eq_true]
  constructor
  · rintro ⟨-, e, he, hreaches⟩
    obtain ⟨pattern, conditions, label, rfl, hm⟩ := (mem_edges_under es).1 he
    exact ⟨pattern, conditions, label, hm, hreaches⟩
  · rintro ⟨pattern, conditions, label, hm, hreaches⟩
    have he := (mem_edges_under es).2 ⟨pattern, conditions, label, rfl, hm⟩
    exact ⟨⟨_, mem_itemsUnder _ |>.1 he, rfl⟩, _, he, hreaches⟩

theorem allowsExactly_ofLogs (p a q : String) : (ofLogs es).allowsExactly p a (.str q) = true ↔
    ∃ conditions label, .edge p a false q conditions label ∈ es := by
  have hof : (ofLogs es).allows.of p = .gather (itemsUnder p (Entry.edges false es)) :=
    EdgeIndex.of_ofLog _ p
  unfold allowsExactly
  rw [hof, OrderedMap.getD_gather, List.any_eq_true]
  constructor
  · rintro ⟨e, he, hq⟩
    obtain ⟨pattern, conditions, label, rfl, hm⟩ := (mem_edges_under es).1 he
    have hsame : q = pattern := by simpa [Json.equals, Json.same, Json.isNaN, Json.key?] using hq
    subst hsame
    exact ⟨conditions, label, hm⟩
  · rintro ⟨conditions, label, hm⟩
    refine ⟨_, (mem_edges_under es).2 ⟨q, conditions, label, rfl, hm⟩, ?_⟩
    simp [Json.equals, Json.same, Json.isNaN, Json.key?]

theorem sizes_ofLogs : (ofLogs es).sizes = {
    principals := ((Entry.principalRecords es).map (·.1)).eraseDups.length
    resources := ((Entry.resourceRecords es).map (·.1)).eraseDups.length
    allows := (Entry.edges false es).length
    denies := (Entry.edges true es).length
    trusts := (Entry.trusts es).length
    guardrails := (Entry.guardrails es).length } := by
  unfold sizes ofLogs
  rw [size_ofList_underTexts, size_ofList_underTexts, EdgeIndex.length_list_ofLog,
    EdgeIndex.length_list_ofLog, OrderedMap.length_flatten_gather]
  unfold underTexts
  rw [List.length_map]

end Readers

/-! ## Top theorem -/

/-- **A graph is what was recorded.**  What has texts for names is recorded without a fault, and
every reader answers from all that was recorded: records by the last one of a name, edges and trust
without losing or repeating any. -/
theorem answers_ofEntries {es : List Entry} (hes : ∀ e ∈ es, e.Keyed) :
    ∃ g, ofEntries es = .ok g ∧ g.Answers es := by
  refine ⟨ofLogs es, ofEntries_keyed hes, ?_⟩
  exact {
    principal := principal?_ofLogs es
    resource := resource?_ofLogs es
    principals := values_ofList_underTexts _
    resources := values_ofList_underTexts _
    guardrails := rfl
    trustors := trustors_ofLogs es
    mayAssume := fun p r => admits_iff
    mem_rolesOpenTo := mem_rolesOpenTo_ofLogs es
    rolesOpenTo := rolesOpenTo_ofLogs es
    nodup_rolesOpenTo := nodup_rolesOpenTo_ofLogs es
    openActions := mem_openActions_ofLogs es
    allowsExactly := allowsExactly_ofLogs es
    sizes := sizes_ofLogs es }

/-- The later record of the member counts, and both edges of the staff are kept. -/
theorem answers_ofEntries_member :
    (∀ e ∈ memberEntries', e.Keyed) ∧ ∃ g, ofEntries memberEntries' = .ok g ∧
      g.principal? "member" = some member ∧ g.rolesOpenTo (.str "member") = [.text "role"] ∧
      (∃ actions, g.openActions "staff" (.str "file") = .ok actions ∧ "*" ∈ actions) ∧
      g.sizes = ⟨1, 0, 2, 0, 1, 1⟩ := by
  have hes : ∀ e ∈ memberEntries', e.Keyed := by
    simp only [memberEntries', List.forall_mem_cons]
    exact ⟨trivial, ⟨_, rfl⟩, trivial, ⟨_, rfl⟩, trivial, trivial,
      fun e he => absurd he List.not_mem_nil⟩
  obtain ⟨g, hg, h⟩ := answers_ofEntries hes
  obtain ⟨actions, hactions, -, hmem⟩ := h.openActions "staff" "file"
  have hany : "*" ∈ actions :=
    (hmem "*").2 ⟨"*", .null, "second", List.mem_cons_self, by decide⟩
  exact ⟨hes, g, hg, h.principal "member", h.rolesOpenTo "member", ⟨actions, hactions, hany⟩,
    h.sizes⟩

end Graph
end CloudAccess
