import CloudAccess.OrderedMap
import Mathlib.Data.List.Forall2

/-!
# Lists and maps paired item by item

Two lists are paired when their items stand in a relation one by one (`List.Forall₂`), and two maps
when they have the same keys in the same order and related values (`OrderedMap.Paired`).  An item
of the one has a partner in the other, and look-ups under one key are related (`Paired.get?`).

Lists in which every item has a partner need not have them in the same order (`Partnered`).
-/

namespace CloudAccess

section

variable {α β : Type} {R : α → β → Prop} {l : List α} {l' : List β}

theorem exists_of_forall₂_left (h : List.Forall₂ R l l') {a : α} (ha : a ∈ l) :
    ∃ b ∈ l', R a b := by
  induction h with
  | nil => exact absurd ha List.not_mem_nil
  | cons hR _ ih =>
    rcases List.mem_cons.1 ha with rfl | ha
    · exact ⟨_, List.mem_cons_self, hR⟩
    · obtain ⟨b, hb, hab⟩ := ih ha
      exact ⟨b, List.mem_cons_of_mem _ hb, hab⟩

theorem exists_of_forall₂_right (h : List.Forall₂ R l l') {b : β} (hb : b ∈ l') :
    ∃ a ∈ l, R a b :=
  exists_of_forall₂_left (R := fun b a => R a b) h.flip hb

/-- Every item of the one list is related to some item of the other. -/
def Partnered (R : α → β → Prop) (l : List α) (l' : List β) : Prop :=
  (∀ a ∈ l, ∃ b ∈ l', R a b) ∧ ∀ b ∈ l', ∃ a ∈ l, R a b

theorem Partnered.of_perm {ns : List α} (hp : l.Perm ns) (h : List.Forall₂ R ns l') :
    Partnered R l l' := by
  refine ⟨fun a ha => exists_of_forall₂_left h (hp.mem_iff.1 ha), fun b hb => ?_⟩
  obtain ⟨a, ha, hR⟩ := exists_of_forall₂_right h hb
  exact ⟨a, hp.mem_iff.2 ha, hR⟩

theorem Partnered.flatMap {γ δ : Type} {S : γ → δ → Prop} {f : α → List γ} {f' : β → List δ}
    (h : Partnered R l l') (hf : ∀ a b, R a b → Partnered S (f a) (f' b)) :
    Partnered S (l.flatMap f) (l'.flatMap f') := by
  constructor
  · intro x hx
    obtain ⟨a, ha, hx⟩ := List.mem_flatMap.1 hx
    obtain ⟨b, hb, hR⟩ := h.1 a ha
    obtain ⟨y, hy, hS⟩ := (hf a b hR).1 x hx
    exact ⟨y, List.mem_flatMap.2 ⟨b, hb, hy⟩, hS⟩
  · intro y hy
    obtain ⟨b, hb, hy⟩ := List.mem_flatMap.1 hy
    obtain ⟨a, ha, hR⟩ := h.2 b hb
    obtain ⟨x, hx, hS⟩ := (hf a b hR).2 y hy
    exact ⟨x, List.mem_flatMap.2 ⟨a, ha, hx⟩, hS⟩

theorem Partnered.map {γ δ : Type} {S : γ → δ → Prop} {f : α → γ} {f' : β → δ}
    (h : Partnered R l l') (hf : ∀ a b, R a b → S (f a) (f' b)) :
    Partnered S (l.map f) (l'.map f') := by
  constructor
  · intro x hx
    obtain ⟨a, ha, rfl⟩ := List.mem_map.1 hx
    obtain ⟨b, hb, hR⟩ := h.1 a ha
    exact ⟨f' b, List.mem_map_of_mem hb, hf a b hR⟩
  · intro y hy
    obtain ⟨b, hb, rfl⟩ := List.mem_map.1 hy
    obtain ⟨a, ha, hR⟩ := h.2 b hb
    exact ⟨f a, List.mem_map_of_mem ha, hf a b hR⟩

end

theorem Partnered.refl {α : Type} {R : α → α → Prop} (hR : ∀ a, R a a) (l : List α) :
    Partnered R l l :=
  ⟨fun a ha => ⟨a, ha, hR a⟩, fun a ha => ⟨a, ha, hR a⟩⟩

namespace OrderedMap

variable {κ α β : Type} [BEq κ]

/-- The same keys, and values that are related. -/
def Paired (R : κ → α → β → Prop) (m : OrderedMap κ α) (m' : OrderedMap κ β) : Prop :=
  List.Forall₂ (fun entry entry' => entry'.1 = entry.1 ∧ R entry.1 entry.2 entry'.2)
    m.entries m'.entries

theorem Paired.get? {R : κ → α → β → Prop} {m : OrderedMap κ α} {m' : OrderedMap κ β}
    (h : m.Paired R m') (k : κ) :
    Option.Rel (fun a b => ∃ k', (k' == k) = true ∧ R k' a b) (m.get? k) (m'.get? k) := by
  obtain ⟨entries⟩ := m
  obtain ⟨entries'⟩ := m'
  unfold Paired at h
  unfold OrderedMap.get?
  simp only at h ⊢
  induction h with
  | nil => exact .none
  | @cons entry entry' _ _ hentry _ ih =>
    obtain ⟨k', a⟩ := entry
    obtain ⟨k'', b⟩ := entry'
    obtain ⟨hkey, hR⟩ := hentry
    obtain rfl : k'' = k' := hkey
    simp only [lookup]
    split
    · next hk => exact .some ⟨k'', hk, hR⟩
    · exact ih

/-- Where the relation does not depend on the key, look-ups are simply related. -/
theorem Paired.get?_rel {R : α → β → Prop} {m : OrderedMap κ α} {m' : OrderedMap κ β}
    (h : m.Paired (fun _ => R) m') (k : κ) : Option.Rel R (m.get? k) (m'.get? k) := by
  have hget := h.get? k
  generalize m.get? k = a, m'.get? k = b at hget ⊢
  cases hget with
  | none => exact .none
  | some hR =>
    obtain ⟨-, -, hR⟩ := hR
    exact .some hR

end OrderedMap

end CloudAccess
