import CloudAccess.Fault
import CloudAccess.Sorting

/-!
# Identifiers

What names a principal or a resource.  It is a text in any sound snapshot, but other scalars can
serve; lists and objects cannot.  Two identifiers are equal when they have the same key, however
they are spelled.

* `Identifier.ofJson`: the identifier that a value gives, or a fault.
* `Identifier.sort`: identifiers in ascending order; texts do not compare with numbers.
-/

namespace CloudAccess

structure Identifier where
  value : Json
  key : Json.Key
  key_eq : value.key? = some key

namespace Identifier

/-- The identifier that a value gives. -/
def ofJson? (v : Json) : Option Identifier :=
  match h : v.key? with
  | some k => some ⟨v, k, h⟩
  | none => none

/-- The identifier that a value gives; lists and objects give none. -/
def ofJson (v : Json) : Except Fault Identifier :=
  match ofJson? v with
  | some i => .ok i
  | none => .error (.notKey v.kind)

def text (s : String) : Identifier := ⟨.str s, .str s, rfl⟩

instance : Coe String Identifier := ⟨text⟩

instance : BEq Identifier := ⟨fun a b => decide (a.key = b.key)⟩

theorem beq_iff {a b : Identifier} : (a == b) = true ↔ a.key = b.key := decide_eq_true_iff

instance : EquivBEq Identifier where
  rfl := beq_iff.2 rfl
  symm h := beq_iff.2 (beq_iff.1 h).symm
  trans h h' := beq_iff.2 ((beq_iff.1 h).trans (beq_iff.1 h'))

@[simp] theorem text_beq (s t : String) : (text s == text t) = decide (s = t) := by
  by_cases h : s = t
  · subst h; simp
  · have : ¬ (text s).key = (text t).key := fun hk => h (Json.Key.str.inj hk)
    simp [h, ← Bool.not_eq_true, beq_iff, this]

@[simp] theorem ofJson_str (s : String) : ofJson (.str s) = .ok (text s) := rfl

def kind (i : Identifier) : Json.Kind := i.value.kind

/-! ## Order -/

/-- Whether an identifier comes before another: texts by their characters, numbers by value. -/
def precedes (a b : Identifier) : Except Fault Bool :=
  match a.key, b.key with
  | .str s, .str t => .ok (s < t)
  | .int m, .int n => .ok (m < n)
  | .float x, .float y => .ok (x.numLt y)
  | .float x, .int n => .ok (x.compareInt? n = some .lt)
  | .int m, .float y => .ok (y.compareInt? m = some .gt)
  | _, _ => .error (.notComparable a.kind b.kind)

/-- The text of an identifier that is one. -/
def text? (i : Identifier) : Option String :=
  match i.key with
  | .str s => some s
  | _ => none

@[simp] theorem text?_text (s : String) : (text s).text? = some s := rfl

/-- Identifiers in ascending order.  Texts can always be compared. -/
def sort (ids : List Identifier) : Except Fault (List Identifier) :=
  match ids.mapM text? with
  | some texts => .ok (texts.mergeSort.map text)
  | none => sortWith precedes ids

theorem mapM_text? (texts : List String) : (texts.map text).mapM text? = some texts := by
  induction texts with
  | nil => rfl
  | cons s rest ih => simp [List.mapM_cons, ih]

theorem sort_texts (texts : List String) :
    sort (texts.map text) = .ok (texts.mergeSort.map text) := by
  simp only [sort, mapM_text?]

end Identifier
end CloudAccess
