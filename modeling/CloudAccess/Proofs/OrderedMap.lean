import CloudAccess.Proofs.Graph.Edges
import Mathlib

/-!
# Maps made of a log

A map in order of insertion is made of a log of keys and items, each of which changes the value of
its key (`OrderedMap.logged`).  What the map says of a key is what the items under it come to, and
the keys are those of the log, each once, in the order in which they came first:

    (logged f log).get? k = (itemsUnder k log).foldl (fun v a => some (f a v)) none  (get?_logged)
    (logged f log).keys = (log.map (·.1)).eraseDups                                 (keys_logged)

Two kinds of maps are used: `OrderedMap.ofList` keeps the last item of each key, and
`OrderedMap.gather` keeps them all.
-/

namespace CloudAccess

/-! ## Logs -/

/-- The items that a log has under a key, in their order. -/
def itemsUnder {κ α : Type} [BEq κ] (k : κ) (log : List (κ × α)) : List α :=
  (log.filter fun e => e.1 == k).map (·.2)

section Logs

variable {κ α : Type} [BEq κ]

theorem itemsUnder_snoc (k : κ) (log : List (κ × α)) (e : κ × α) :
    itemsUnder k (log ++ [e]) =
      if e.1 == k then itemsUnder k log ++ [e.2] else itemsUnder k log := by
  unfold itemsUnder
  rw [List.filter_append, List.map_append, List.filter_singleton]
  cases e.1 == k with
  | true => rfl
  | false => exact List.append_nil _

/-- How the keys are written does not matter, as long as different ones stay different. -/
theorem itemsUnder_map {ν : Type} [BEq ν] {f : ν → κ} (hf : ∀ a b, (f a == f b) = (a == b))
    (a : ν) (log : List (ν × α)) :
    itemsUnder (f a) (log.map (Prod.map f id)) = itemsUnder a log := by
  unfold itemsUnder
  rw [List.filter_map, List.map_map]
  simp only [Function.comp_def, Prod.map_fst, hf]
  rfl

/-- One more item is new, or changes nothing. -/
theorem eraseDups_snoc (l : List κ) (a : κ) :
    (l ++ [a]).eraseDups =
      if l.eraseDups.any (a == ·) then l.eraseDups else l.eraseDups ++ [a] := by
  -- `seen` are the items before `l`, the last one first
  have hloop (l seen : List κ) : List.eraseDupsBy.loop (· == ·) (l ++ [a]) seen =
      if (List.eraseDupsBy.loop (· == ·) l seen).any (a == ·)
      then List.eraseDupsBy.loop (· == ·) l seen
      else List.eraseDupsBy.loop (· == ·) l seen ++ [a] := by
    induction l generalizing seen with
    | nil =>
      have hany : seen.reverse.any (a == ·) = seen.any (a == ·) := List.any_reverse
      rw [List.nil_append, List.eraseDupsBy.loop, List.eraseDupsBy.loop, hany]
      cases seen.any (a == ·) with
      | true => rfl
      | false => exact List.reverse_cons
    | cons b rest ih =>
      rw [List.cons_append, List.eraseDupsBy.loop, List.eraseDupsBy.loop]
      cases seen.any (b == ·) with
      | true => exact ih seen
      | false => exact ih (b :: seen)
  exact hloop l []

end Logs

namespace OrderedMap

/-- The map that the items of a log make, each by changing the value of its key. -/
def logged {κ α β : Type} [BEq κ] (f : α → Option β → β) (log : List (κ × α)) : OrderedMap κ β :=
  log.foldl (fun m e => m.alter e.1 (f e.2)) empty

/-- The map of all the items under each key. -/
def gather {κ α : Type} [BEq κ] (log : List (κ × α)) : OrderedMap κ (List α) :=
  logged (fun a as => as.getD [] ++ [a]) log

/-! ## One step -/

section Step

variable {κ β : Type} [BEq κ]

theorem keys_alter (m : OrderedMap κ β) (k : κ) (f : Option β → β) :
    (m.alter k f).keys = if m.keys.any (· == k) then m.keys else m.keys ++ [k] := by
  obtain ⟨entries⟩ := m
  unfold keys alter
  induction entries with
  | nil => rfl
  | cons entry rest ih =>
    obtain ⟨k', b⟩ := entry
    cases h : k' == k with
    | true => simp [alterEntries, h]
    | false =>
      simp only [alterEntries, h, Bool.false_eq_true, if_false, List.map_cons, List.any_cons,
        Bool.false_or] at ih ⊢
      rw [ih]
      split <;> rfl

/-- A step that makes each value heavier by one makes the map heavier by one. -/
theorem sum_values_alter {w : β → Nat} {f : Option β → β} (hnone : w (f none) = 1)
    (hsome : ∀ b, w (f (some b)) = w b + 1) (m : OrderedMap κ β) (k : κ) :
    ((m.alter k f).values.map w).sum = (m.values.map w).sum + 1 := by
  obtain ⟨entries⟩ := m
  unfold values alter
  induction entries with
  | nil => simp [alterEntries, hnone]
  | cons entry rest ih =>
    obtain ⟨k', b⟩ := entry
    by_cases h : (k' == k) = true
    · simp only [alterEntries, h, if_true, List.map_cons, List.sum_cons, hsome]
      omega
    · simp only [alterEntries, h, Bool.false_eq_true, if_false, List.map_cons,
        List.sum_cons] at ih ⊢
      omega

/-- An item more under a key is an item more in all. -/
theorem length_flatten_push (m : OrderedMap κ (List β)) (k : κ) (b : β) :
    (m.push k b).values.flatten.length = m.values.flatten.length + 1 := by
  rw [List.length_flatten, List.length_flatten]
  exact sum_values_alter rfl (fun _ => List.length_append) m k

theorem length_flatten_foldl_push (m : OrderedMap κ (List β)) (k : κ) (bs : List β) :
    (bs.foldl (fun m b => m.push k b) m).values.flatten.length =
      m.values.flatten.length + bs.length := by
  induction bs generalizing m with
  | nil => rfl
  | cons b rest ih =>
    rw [List.foldl_cons, ih, length_flatten_push, List.length_cons]
    omega

theorem get?_alter [EquivBEq κ] (m : OrderedMap κ β) (k k' : κ) (f : Option β → β) :
    (m.alter k f).get? k' = if k == k' then some (f (m.get? k')) else m.get? k' := by
  split
  · next h => rw [← get?_congr _ h, get?_alter_self, get?_congr _ h]
  · next h => exact get?_alter_of_ne m (by simpa using h) f

/-- No two keys of a map are equal. -/
def Distinct (m : OrderedMap κ β) : Prop := m.keys.Pairwise fun k k' => (k == k') = false

theorem Distinct.alter {m : OrderedMap κ β} (h : m.Distinct) (k : κ) (f : Option β → β) :
    (m.alter k f).Distinct := by
  unfold Distinct
  rw [keys_alter]
  split
  · exact h
  · next hnew =>
    refine List.pairwise_append.2 ⟨h, List.pairwise_singleton _ _, fun a ha b hb => ?_⟩
    obtain rfl := List.mem_singleton.1 hb
    rw [List.any_eq_true, not_exists] at hnew
    exact Bool.eq_false_iff.2 fun he => hnew a ⟨ha, he⟩

/-- Every entry is found under its key. -/
theorem Distinct.get? [EquivBEq κ] {m : OrderedMap κ β} (h : m.Distinct) {e : κ × β}
    (he : e ∈ m.entries) : m.get? e.1 = some e.2 := by
  obtain ⟨entries⟩ := m
  unfold Distinct keys at h
  unfold OrderedMap.get?
  induction entries with
  | nil => exact absurd he List.not_mem_nil
  | cons entry rest ih =>
    rw [List.map_cons, List.pairwise_cons] at h
    rcases List.mem_cons.1 he with rfl | hrest
    · rw [lookup, if_pos BEq.rfl]
    · have hne : (entry.1 == e.1) = false := h.1 e.1 (List.mem_map.2 ⟨e, hrest, rfl⟩)
      rw [lookup, if_neg (by rw [hne]; exact Bool.false_ne_true)]
      exact ih h.2 hrest

end Step

/-! ## Values -/

/-- A map with other values under its keys. -/
def mapValues {κ α β : Type} (f : α → β) (m : OrderedMap κ α) : OrderedMap κ β :=
  ⟨m.entries.map (Prod.map id f)⟩

section Values

variable {κ α β : Type} (f : α → β) (m : OrderedMap κ α)

theorem values_mapValues : (m.mapValues f).values = m.values.map f := by
  unfold values mapValues
  rw [List.map_map, List.map_map]
  rfl

variable [BEq κ]

theorem get?_mapValues (k : κ) : (m.mapValues f).get? k = (m.get? k).map f := by
  obtain ⟨entries⟩ := m
  unfold get? mapValues
  induction entries with
  | nil => rfl
  | cons entry rest ih =>
    obtain ⟨k', a⟩ := entry
    simp only [List.map_cons, Prod.map_apply, id, lookup] at ih ⊢
    cases k' == k with
    | true => rfl
    | false => exact ih

theorem mapValues_insert (k : κ) (a : α) :
    (m.insert k a).mapValues f = (m.mapValues f).insert k (f a) := by
  obtain ⟨entries⟩ := m
  unfold insert alter mapValues
  congr 1
  induction entries with
  | nil => rfl
  | cons entry rest ih =>
    obtain ⟨k', b⟩ := entry
    simp only [List.map_cons, Prod.map_apply, id, alterEntries] at ih ⊢
    cases k' == k with
    | true => rfl
    | false => exact congrArg _ ih

end Values

/-! ## A whole log -/

section Logged

variable {κ α β : Type} [BEq κ] (f : α → Option β → β) (log : List (κ × α))

theorem logged_snoc (e : κ × α) : logged f (log ++ [e]) = (logged f log).alter e.1 (f e.2) := by
  unfold logged
  rw [List.foldl_append]
  rfl

theorem distinct_logged : (logged f log).Distinct := by
  induction log using List.reverseRecOn with
  | nil => exact List.Pairwise.nil
  | append_singleton log e ih =>
    rw [logged_snoc]
    exact ih.alter e.1 _

/-- When each item makes the value of its key heavier by one, the map is as heavy as the log is
long. -/
theorem sum_values_logged {f : α → Option β → β} {w : β → Nat} (hnone : ∀ a, w (f a none) = 1)
    (hsome : ∀ a b, w (f a (some b)) = w b + 1) :
    ((logged f log).values.map w).sum = log.length := by
  induction log using List.reverseRecOn with
  | nil => rfl
  | append_singleton log e ih =>
    rw [logged_snoc, sum_values_alter (hnone e.2) (hsome e.2), ih, List.length_append,
      List.length_singleton]

variable [EquivBEq κ]

theorem get?_logged (k : κ) :
    (logged f log).get? k = (itemsUnder k log).foldl (fun v a => some (f a v)) none := by
  induction log using List.reverseRecOn with
  | nil => rfl
  | append_singleton log e ih =>
    rw [logged_snoc, get?_alter, itemsUnder_snoc, ih]
    split
    · rw [List.foldl_append]
      rfl
    · rfl

theorem keys_logged : (logged f log).keys = (log.map (·.1)).eraseDups := by
  induction log using List.reverseRecOn with
  | nil => rfl
  | append_singleton log e ih =>
    have hcomm (l : List κ) : l.any (· == e.1) = l.any (e.1 == ·) :=
      List.any_congr rfl fun _ => Bool.eq_iff_iff.2 ⟨BEq.symm, BEq.symm⟩
    rw [logged_snoc, keys_alter, List.map_append, List.map_singleton, eraseDups_snoc, hcomm, ih]

end Logged

/-! ## The last items -/

section Last

variable {κ α : Type} [BEq κ] [EquivBEq κ] (log : List (κ × α))

theorem foldl_some_last (l : List α) :
    l.foldl (fun _ a => some a) (none : Option α) = l.getLast? := by
  induction l using List.reverseRecOn with
  | nil => rfl
  | append_singleton l a =>
    rw [List.foldl_append, List.getLast?_concat]
    rfl

omit [EquivBEq κ] in
theorem ofList_snoc (k : κ) (a : α) : ofList (log ++ [(k, a)]) = (ofList log).insert k a :=
  logged_snoc (fun a _ => a) log (k, a)

/-- The last item under a key counts. -/
theorem get?_ofList (k : κ) : (ofList log).get? k = (itemsUnder k log).getLast? :=
  (get?_logged (fun a _ => a) log k).trans (foldl_some_last _)

/-- There is one value for each key, the last item under it. -/
theorem values_ofList :
    List.Forall₂ (fun k a => (itemsUnder k log).getLast? = some a) (log.map (·.1)).eraseDups
      (ofList log).values := by
  have hkeys : (ofList log).keys = (log.map (·.1)).eraseDups := keys_logged (fun a _ => a) log
  have hdistinct : (ofList log).Distinct := distinct_logged (fun a _ => a) log
  rw [← hkeys]
  unfold keys values
  rw [List.forall₂_map_left_iff, List.forall₂_map_right_iff, List.forall₂_same]
  intro e he
  rw [← get?_ofList]
  exact hdistinct.get? he

end Last

/-! ## All the items -/

section All

variable {κ α : Type} [BEq κ] (log : List (κ × α))

/-- What is not there yet counts as what a fold starts with. -/
theorem getD_foldl_some {β : Type} (step : β → α → β) (b : β) (l : List α) :
    (l.foldl (fun v a => some (step (v.getD b) a)) none).getD b = l.foldl step b := by
  induction l using List.reverseRecOn with
  | nil => rfl
  | append_singleton l a ih =>
    rw [List.foldl_append, List.foldl_append, ← ih]
    rfl

theorem gather_snoc (k : κ) (a : α) : gather (log ++ [(k, a)]) = (gather log).push k a :=
  logged_snoc _ log (k, a)

theorem length_flatten_gather : (gather log).values.flatten.length = log.length := by
  rw [List.length_flatten]
  exact sum_values_logged log (fun _ => rfl) fun _ as => List.length_append

variable [EquivBEq κ]

theorem getD_gather (k : κ) : ((gather log).get? k).getD [] = itemsUnder k log := by
  have hget : (gather log).get? k = _ := get?_logged _ log k
  rw [hget, getD_foldl_some (fun as a => as ++ [a]), List.foldl_append_eq_append,
    ← List.flatMap_def, List.flatMap_singleton', List.nil_append]

/-- There is one entry for each key, with all the items under it. -/
theorem entries_gather :
    (gather log).entries = (log.map (·.1)).eraseDups.map fun k => (k, itemsUnder k log) := by
  have hkeys : (gather log).keys = (log.map (·.1)).eraseDups := keys_logged _ log
  have hdistinct : (gather log).Distinct := distinct_logged _ log
  rw [← hkeys]
  unfold keys
  rw [List.map_map]
  refine (List.map_id _).symm.trans (List.map_congr_left fun e he => ?_)
  rw [Function.comp_apply, ← getD_gather, hdistinct.get? he]
  rfl

end All

end OrderedMap
end CloudAccess
