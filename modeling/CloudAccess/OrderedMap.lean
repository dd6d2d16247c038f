/-!
# Maps in order of insertion

An `OrderedMap` lists its entries in the order in which their keys came first; changing the value
of a key keeps its place.  Keys are compared by `==`.

Each operation is pinned down by what `get?` and `keys` give after it.
-/

namespace CloudAccess

structure OrderedMap (κ α : Type) where
  entries : List (κ × α)

namespace OrderedMap

variable {κ α β : Type} [BEq κ]

def empty : OrderedMap κ α := ⟨[]⟩

def keys (m : OrderedMap κ α) : List κ := m.entries.map (·.1)

def values (m : OrderedMap κ α) : List α := m.entries.map (·.2)

def size (m : OrderedMap κ α) : Nat := m.entries.length

/-- The value of the first entry with an equal key. -/
def lookup (k : κ) : List (κ × α) → Option α
  | [] => none
  | (k', a) :: rest => if k' == k then some a else lookup k rest

def get? (m : OrderedMap κ α) (k : κ) : Option α := lookup k m.entries

def contains (m : OrderedMap κ α) (k : κ) : Bool := (m.get? k).isSome

/-- Changes the value of the first entry with an equal key, or appends an entry. -/
def alterEntries (k : κ) (f : Option α → α) : List (κ × α) → List (κ × α)
  | [] => [(k, f none)]
  | (k', a) :: rest =>
    if k' == k then (k', f (some a)) :: rest else (k', a) :: alterEntries k f rest

/-- Sets the value of a key from its present value. -/
def alter (m : OrderedMap κ α) (k : κ) (f : Option α → α) : OrderedMap κ α :=
  ⟨alterEntries k f m.entries⟩

/-- Sets the value of a key. -/
def insert (m : OrderedMap κ α) (k : κ) (a : α) : OrderedMap κ α := m.alter k fun _ => a

/-- The values under keys that are lists, with one more item under a key. -/
def push (m : OrderedMap κ (List α)) (k : κ) (a : α) : OrderedMap κ (List α) :=
  m.alter k fun as => as.getD [] ++ [a]

def ofList (es : List (κ × α)) : OrderedMap κ α :=
  es.foldl (fun m (k, a) => m.insert k a) empty

/-! ## What the operations do -/

theorem lookup_alterEntries_self [EquivBEq κ] (k : κ) (f : Option α → α) (es : List (κ × α)) :
    lookup k (alterEntries k f es) = some (f (lookup k es)) := by
  induction es with
  | nil => simp [alterEntries, lookup]
  | cons e es ih =>
    obtain ⟨k', a⟩ := e
    by_cases h : (k' == k) = true <;> simp [alterEntries, lookup, h, ih]

theorem lookup_alterEntries_of_ne [EquivBEq κ] {k k' : κ} (h : (k == k') = false)
    (f : Option α → α) (es : List (κ × α)) :
    lookup k' (alterEntries k f es) = lookup k' es := by
  induction es with
  | nil => simp [alterEntries, lookup, h]
  | cons e es ih =>
    obtain ⟨k'', a⟩ := e
    by_cases hk : (k'' == k) = true
    · have hne : (k'' == k') = false := by
        cases hc : k'' == k' with
        | false => rfl
        | true => rw [← h]; exact (BEq.trans (BEq.symm hk) hc).symm
      simp [alterEntries, lookup, hk, hne]
    · simp only [alterEntries, hk, lookup, if_false, Bool.false_eq_true]
      split
      · rfl
      · exact ih

@[simp] theorem get?_alter_self [EquivBEq κ] (m : OrderedMap κ α) (k : κ) (f : Option α → α) :
    (m.alter k f).get? k = some (f (m.get? k)) :=
  lookup_alterEntries_self k f m.entries

theorem get?_alter_of_ne [EquivBEq κ] (m : OrderedMap κ α) {k k' : κ} (h : (k == k') = false)
    (f : Option α → α) : (m.alter k f).get? k' = m.get? k' :=
  lookup_alterEntries_of_ne h f m.entries

@[simp] theorem get?_insert_self [EquivBEq κ] (m : OrderedMap κ α) (k : κ) (a : α) :
    (m.insert k a).get? k = some a :=
  get?_alter_self m k _

theorem get?_insert_of_ne [EquivBEq κ] (m : OrderedMap κ α) {k k' : κ} (h : (k == k') = false)
    (a : α) : (m.insert k a).get? k' = m.get? k' :=
  get?_alter_of_ne m h _

end OrderedMap
end CloudAccess
