import CloudAccess.Graph.Snapshot

/-!
# The edges that a graph holds

`Graph.Holds` forgets how the edges of a graph are indexed: what is left is which edge an owner
has under which action pattern, and whether it denies.  Every step that adds to a graph is
described by the edges that are held after it:

    (g.insertEdge o a deny e).Holds … ↔ g.Holds … ∨ it is the new edge      (holds_insertEdge)
    (g.addStatement o s ps).Holds … ↔ g.Holds … ∨ it is one of `s` and `ps`  (holds_addStatement)
-/

namespace CloudAccess

/-! ## Keys -/

/-- Only a text has the key of a text. -/
theorem Json.eq_str_of_key? {v : Json} {s : String} (h : v.key? = some (.str s)) : v = .str s := by
  cases v with
  | str t => rw [Key.str.inj (Option.some.inj h)]
  | float x =>
    -- a number has the key of an integer or its own
    have hkey := Option.some.inj h
    split at hkey
    · cases hkey
    · cases hkey
  | _ => cases h

/-- What a value identifies has the key of the value. -/
theorem Identifier.key_of_ofJson {v : Json} {id : Identifier} (h : ofJson v = .ok id) :
    v.key? = some id.key := by
  unfold ofJson ofJson? at h
  split at h
  · next hsome =>
    obtain rfl := Except.ok.inj h
    split at hsome
    · next hkey =>
      obtain rfl := Option.some.inj hsome
      exact hkey
    · cases hsome
  · cases h

/-- What is no text covers no text, and cannot even be matched against one. -/
theorem covers_not_text {v : Json} (hv : ¬ ∃ q, v = .str q) (t : String) : covers v (.str t) =
    .error (if v.key?.isSome then .notPattern v.kind else .notKey v.kind) := by
  cases v with
  | str q => exact absurd ⟨q, rfl⟩ hv
  | float x =>
    have hne : (Json.float x).same (.str t) = false := by
      unfold Json.same
      rw [decide_eq_false_iff_not]
      intro hkey
      cases Json.eq_str_of_key? hkey.symm
    simp only [covers, Json.equals, hne, Bool.and_false]
    rfl
  | _ => rfl

/-! ## Maps of lists -/

namespace OrderedMap

variable {κ α : Type} [BEq κ]

/-- An item is in one of the lists under a key. -/
def Lists (m : OrderedMap κ (List α)) (k : κ) (a : α) : Prop :=
  ∃ held, (k, held) ∈ m.entries ∧ a ∈ held

omit [BEq κ] in
theorem lists_cons (k' : κ) (held : List α) (rest : List (κ × List α)) (k : κ) (a : α) :
    (⟨(k', held) :: rest⟩ : OrderedMap κ (List α)).Lists k a ↔
      (k = k' ∧ a ∈ held) ∨ (⟨rest⟩ : OrderedMap κ (List α)).Lists k a := by
  unfold Lists
  constructor
  · rintro ⟨h, hm, ha⟩
    rcases List.mem_cons.1 hm with he | hr
    · obtain ⟨rfl, rfl⟩ := Prod.mk.inj he
      exact .inl ⟨rfl, ha⟩
    · exact .inr ⟨h, hr, ha⟩
  · rintro (⟨rfl, ha⟩ | ⟨h, hr, ha⟩)
    · exact ⟨held, List.mem_cons_self, ha⟩
    · exact ⟨h, List.mem_cons_of_mem _ hr, ha⟩

omit [BEq κ] in
theorem not_lists_empty (k : κ) (a : α) : ¬ (⟨[]⟩ : OrderedMap κ (List α)).Lists k a := by
  rintro ⟨held, h, -⟩
  exact absurd h List.not_mem_nil

theorem lists_push [LawfulBEq κ] (m : OrderedMap κ (List α)) (k l : κ) (a b : α) :
    (m.push k a).Lists l b ↔ m.Lists l b ∨ (l = k ∧ b = a) := by
  obtain ⟨entries⟩ := m
  unfold push alter
  induction entries with
  | nil =>
    simp only [alterEntries, lists_cons, Option.getD_none, List.nil_append, List.mem_singleton]
    exact or_comm
  | cons entry rest ih =>
    obtain ⟨k', held⟩ := entry
    by_cases hk : (k' == k) = true
    · have hkk : k' = k := eq_of_beq hk
      subst hkk
      simp only [alterEntries, hk, if_true, lists_cons, Option.getD_some, List.mem_append,
        List.mem_singleton]
      constructor
      · rintro (⟨hl, hb | hb⟩ | hr)
        · exact .inl (.inl ⟨hl, hb⟩)
        · exact .inr ⟨hl, hb⟩
        · exact .inl (.inr hr)
      · rintro ((⟨hl, hb⟩ | hr) | ⟨hl, hb⟩)
        · exact .inl ⟨hl, .inl hb⟩
        · exact .inr hr
        · exact .inl ⟨hl, .inr hb⟩
    · simp only [alterEntries, hk, if_false, Bool.false_eq_true, lists_cons] at ih ⊢
      rw [ih]
      exact or_assoc.symm

/-- Equal keys have the same value. -/
theorem get?_congr [EquivBEq κ] {β : Type} (m : OrderedMap κ β) {k l : κ} (h : (k == l) = true) :
    m.get? k = m.get? l := by
  obtain ⟨entries⟩ := m
  unfold get?
  induction entries with
  | nil => rfl
  | cons entry rest ih =>
    have hkl : (entry.1 == k) = (entry.1 == l) := by
      rw [Bool.eq_iff_iff]
      exact ⟨fun hk => BEq.trans hk h, fun hl => BEq.trans hl (BEq.symm h)⟩
    simp only [lookup, hkl]
    rw [ih]

theorem mem_entries_insert [EquivBEq κ] {β : Type} {m : OrderedMap κ β} {k : κ} {b : β} {e : κ × β}
    (h : e ∈ (m.insert k b).entries) : ((e.1 == k) = true ∧ e.2 = b) ∨ e ∈ m.entries := by
  obtain ⟨entries⟩ := m
  unfold insert alter at h
  induction entries with
  | nil =>
    obtain rfl := List.mem_singleton.1 h
    exact .inl ⟨BEq.rfl, rfl⟩
  | cons entry rest ih =>
    rw [alterEntries] at h
    split at h
    · next hk =>
      rcases List.mem_cons.1 h with rfl | hrest
      · exact .inl ⟨hk, rfl⟩
      · exact .inr (List.mem_cons_of_mem entry hrest)
    · rcases List.mem_cons.1 h with rfl | hrest
      · exact .inr List.mem_cons_self
      · exact (ih hrest).imp_right (List.mem_cons_of_mem entry)

theorem mem_values_insert [EquivBEq κ] {β : Type} {m : OrderedMap κ β} {k : κ} {a b : β}
    (h : b ∈ (m.insert k a).values) : b = a ∨ b ∈ m.values := by
  obtain ⟨e, he, rfl⟩ := List.mem_map.1 h
  rcases mem_entries_insert he with ⟨-, ha⟩ | he
  · exact .inl ha
  · exact .inr (List.mem_map_of_mem he)

/-- What is found under a key was entered under one that is equal. -/
theorem mem_entries_of_get? {β : Type} {m : OrderedMap κ β} {k : κ} {b : β}
    (h : m.get? k = some b) : ∃ e ∈ m.entries, (e.1 == k) = true ∧ e.2 = b := by
  obtain ⟨entries⟩ := m
  unfold get? at h
  induction entries with
  | nil => cases h
  | cons entry rest ih =>
    rw [lookup] at h
    split at h
    · next hk => exact ⟨entry, List.mem_cons_self, hk, Option.some.inj h⟩
    · obtain ⟨e, he, hek⟩ := ih h
      exact ⟨e, List.mem_cons_of_mem entry he, hek⟩

theorem mem_values_of_get? {β : Type} {m : OrderedMap κ β} {k : κ} {b : β}
    (h : m.get? k = some b) : b ∈ m.values := by
  obtain ⟨e, he, -, rfl⟩ := mem_entries_of_get? h
  exact List.mem_map_of_mem he

end OrderedMap

/-! ## Folds -/

section Folds

variable {σ β : Type} {step : σ → β → σ}

/-- What one step adds, a run of steps adds for each of its items. -/
theorem foldl_adds {P : σ → Prop} {Q : β → Prop} (h : ∀ s b, P (step s b) ↔ P s ∨ Q b)
    (bs : List β) (s : σ) : P (bs.foldl step s) ↔ P s ∨ ∃ b ∈ bs, Q b := by
  induction bs generalizing s with
  | nil => simp
  | cons b rest ih =>
    rw [List.foldl_cons, ih, h]
    simp only [List.mem_cons, exists_eq_or_imp]
    exact or_assoc

/-- What relates a state to the next one relates it to the one after a run of steps. -/
theorem foldl_related {R : σ → σ → Prop} (hrefl : ∀ s, R s s)
    (htrans : ∀ {s t u}, R s t → R t u → R s u) {bs : List β}
    (h : ∀ s, ∀ b ∈ bs, R s (step s b)) (s : σ) : R s (bs.foldl step s) :=
  List.foldlRecOn (motive := R s) bs step (hrefl s) fun t ht b hb => htrans ht (h t b hb)

end Folds

/-! ## Edges of an index -/

namespace EdgeIndex

/-- An owner has an edge under an action pattern. -/
def Has (ix : EdgeIndex) (owner : Identifier) (action : String) (e : Edge) : Prop :=
  (ix.of owner).Lists action e

theorem of_add (ix : EdgeIndex) (owner o : Identifier) (action : String) (e : Edge) :
    (ix.add owner action e).of o =
      if owner == o then (ix.of o).push action e else ix.of o := by
  unfold add of
  by_cases h : (owner == o) = true
  · rw [if_pos h, ← OrderedMap.get?_congr _ h, ← OrderedMap.get?_congr _ h,
      OrderedMap.get?_alter_self, Option.getD_some]
  · rw [if_neg h, OrderedMap.get?_alter_of_ne _ (by simpa using h)]

theorem has_add (ix : EdgeIndex) (owner o : Identifier) (action a : String) (e f : Edge) :
    (ix.add owner action e).Has o a f ↔
      ix.Has o a f ∨ ((owner == o) = true ∧ a = action ∧ f = e) := by
  unfold Has
  rw [of_add]
  by_cases h : (owner == o) = true
  · rw [if_pos h, OrderedMap.lists_push]
    simp [h]
  · rw [if_neg h]
    simp [h]

theorem mem_concerning (ix : EdgeIndex) (owner : Identifier) (action : String) (e : Edge) :
    e ∈ ix.concerning owner action ↔ ∃ a, ix.Has owner a e ∧ actionMatches a action = true := by
  unfold concerning Has OrderedMap.Lists
  rw [List.mem_flatMap]
  constructor
  · rintro ⟨⟨a, held⟩, hm, he⟩
    simp only at he
    split at he
    · next ha => exact ⟨a, ⟨held, hm, he⟩, ha⟩
    · exact absurd he List.not_mem_nil
  · rintro ⟨a, ⟨held, hm, he⟩, ha⟩
    refine ⟨(a, held), hm, ?_⟩
    simp only
    rwa [if_pos ha]

end EdgeIndex

/-! ## Edges of a graph -/

namespace Graph

/-- What a graph denies, or what it allows. -/
def index (g : Graph) (deny : Bool) : EdgeIndex := if deny then g.denies else g.allows

/-- An owner has an allow or a deny edge under an action pattern. -/
def Holds (g : Graph) (deny : Bool) (owner : Identifier) (action : String) (e : Edge) : Prop :=
  (g.index deny).Has owner action e

theorem not_holds_empty (guardrails : List Document) (deny : Bool) (o : Identifier) (a : String)
    (e : Edge) : ¬ ({ empty with guardrails } : Graph).Holds deny o a e := by
  cases deny <;> exact OrderedMap.not_lists_empty a e

theorem holds_insertEdge (g : Graph) (owner o : Identifier) (action a : String) (deny d : Bool)
    (e f : Edge) :
    (g.insertEdge owner action deny e).Holds d o a f ↔
      g.Holds d o a f ∨ (d = deny ∧ (owner == o) = true ∧ a = action ∧ f = e) := by
  unfold Holds index insertEdge
  cases deny <;> cases d <;> simp [EdgeIndex.has_add]

/-! ## Statements -/

/-- An edge comes from a statement taken with some resource patterns. -/
def Statement.Makes (s : Statement) (patterns : List Json) (deny : Bool) (a : String) (e : Edge) :
    Prop :=
  deny = s.isDeny ∧ a ∈ s.actions ∧ ∃ p ∈ patterns, e = edgeOf s p

theorem holds_addStatement (g : Graph) (owner o : Identifier) (s : Statement)
    (patterns : List Json) (d : Bool) (a : String) (e : Edge) :
    (g.addStatement owner s patterns).Holds d o a e ↔
      g.Holds d o a e ∨ ((owner == o) = true ∧ Statement.Makes s patterns d a e) := by
  unfold addStatement
  rw [foldl_adds (P := fun g : Graph => g.Holds d o a e)
    (Q := fun action => d = s.isDeny ∧ (owner == o) = true ∧ a = action ∧
      ∃ p ∈ patterns, e = edgeOf s p)]
  · unfold Statement.Makes
    constructor
    · rintro (h | ⟨action, hm, hd, ho, rfl, hp⟩)
      · exact .inl h
      · exact .inr ⟨ho, hd, hm, hp⟩
    · rintro (h | ⟨ho, hd, hm, hp⟩)
      · exact .inl h
      · exact .inr ⟨a, hm, hd, ho, rfl, hp⟩
  · intro g action
    rw [foldl_adds (P := fun g : Graph => g.Holds d o a e)
      (Q := fun p => d = s.isDeny ∧ (owner == o) = true ∧ a = action ∧ e = edgeOf s p)
      (fun g p => holds_insertEdge g owner o action a s.isDeny d (edgeOf s p) e)]
    constructor
    · rintro (h | ⟨p, hm, hd, ho, ha, he⟩)
      · exact .inl h
      · exact .inr ⟨hd, ho, ha, p, hm, he⟩
    · rintro (h | ⟨hd, ho, ha, p, hm, he⟩)
      · exact .inl h
      · exact .inr ⟨p, hm, hd, ho, ha, he⟩

end Graph
end CloudAccess
