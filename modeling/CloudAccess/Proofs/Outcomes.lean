/-!
# Answers and errors

What a computation in several steps that ends in an answer or in an error says of its steps, and
what a list that is gone through item by item says of its items.
-/

namespace CloudAccess

/-! ## Steps -/

@[simp] theorem ok_bind {ε α β : Type} (a : α) (f : α → Except ε β) :
    (Except.ok a >>= f) = f a := rfl

/-- What ends in an answer got one at every step. -/
theorem bind_eq_ok {ε α β : Type} {x : Except ε α} {f : α → Except ε β} {b : β}
    (h : (x >>= f) = .ok b) : ∃ a, x = .ok a ∧ f a = .ok b := by
  cases x with
  | error e => cases h
  | ok a => exact ⟨a, rfl, h⟩

theorem bind_eq_ok_iff {ε α β : Type} {x : Except ε α} {f : α → Except ε β} {b : β} :
    (x >>= f) = .ok b ↔ ∃ a, x = .ok a ∧ f a = .ok b := by
  refine ⟨bind_eq_ok, ?_⟩
  rintro ⟨a, rfl, hb⟩
  exact hb

/-- What ends in an error did so at one of its steps. -/
theorem bind_eq_error {ε α β : Type} {x : Except ε α} {f : α → Except ε β} {e : ε}
    (h : (x >>= f) = .error e) : x = .error e ∨ ∃ a, x = .ok a ∧ f a = .error e := by
  cases x with
  | error e' => exact .inl (congrArg Except.error (Except.error.inj h))
  | ok a => exact .inr ⟨a, rfl, h⟩

/-- What only goes on from an answer ends in the error of its first step. -/
theorem bind_pure_eq_error_iff {ε α β : Type} {x : Except ε α} {f : α → β} {e : ε} :
    (x >>= fun a => pure (f a)) = .error e ↔ x = .error e := by
  cases x <;> simp [bind, Except.bind, pure, Except.pure]

/-- What is made of an answer was made of one. -/
theorem map_eq_ok {ε α β : Type} {x : Except ε α} {f : α → β} {b : β} (h : x.map f = .ok b) :
    ∃ a, x = .ok a ∧ f a = b := by
  cases x with
  | error e => cases h
  | ok a => exact ⟨a, rfl, Except.ok.inj h⟩

theorem map_eq_error {ε α β : Type} {x : Except ε α} {f : α → β} {e : ε}
    (h : x.map f = .error e) : x = .error e := by
  cases x with
  | error e' => exact congrArg Except.error (Except.error.inj h)
  | ok a => cases h

theorem map_bind {ε α β γ : Type} (x : Except ε α) (f : α → Except ε β) (g : β → γ) :
    (x >>= f).map g = x >>= fun a => (f a).map g := by
  cases x <;> rfl

/-- An answer was there before errors were told in another way. -/
theorem mapError_eq_ok {ε ε' α : Type} {x : Except ε α} {f : ε → ε'} {a : α}
    (h : x.mapError f = .ok a) : x = .ok a := by
  cases x with
  | error e => cases h
  | ok a' => exact congrArg Except.ok (Except.ok.inj h)

theorem mapError_eq_ok_iff {ε ε' α : Type} {x : Except ε α} {f : ε → ε'} {a : α} :
    x.mapError f = .ok a ↔ x = .ok a := by
  refine ⟨mapError_eq_ok, ?_⟩
  rintro rfl
  rfl

theorem mapError_eq_error {ε ε' α : Type} {x : Except ε α} {f : ε → ε'} {e' : ε'}
    (h : x.mapError f = .error e') : ∃ e, x = .error e ∧ f e = e' := by
  cases x with
  | error e => exact ⟨e, rfl, Except.error.inj h⟩
  | ok a => cases h

theorem not_ok_eq_error {ε α : Type} {a : α} : ¬ ∃ e, (.ok a : Except ε α) = .error e := by
  rintro ⟨e, he⟩
  cases he

/-! ## Lists -/

/-- What comes of a list comes of one of its items. -/
theorem mem_of_mapM {ε α β : Type} {f : α → Except ε β} {l : List α} {bs : List β}
    (h : l.mapM f = .ok bs) (b : β) : b ∈ bs ↔ ∃ a ∈ l, f a = .ok b := by
  induction l generalizing bs with
  | nil =>
    obtain rfl := Except.ok.inj h
    simp
  | cons a rest ih =>
    rw [List.mapM_cons] at h
    obtain ⟨b', hb, h⟩ := bind_eq_ok h
    obtain ⟨bs', hbs, h⟩ := bind_eq_ok h
    obtain rfl := Except.ok.inj h
    simp only [List.mem_cons, ih hbs, exists_eq_or_imp, hb, Except.ok.injEq]
    rw [eq_comm]

/-- An error of a list is that of one of its items. -/
theorem exists_of_mapM_error {ε α β : Type} {f : α → Except ε β} {l : List α} {e : ε}
    (h : l.mapM f = .error e) : ∃ a ∈ l, f a = .error e := by
  induction l with
  | nil => cases h
  | cons a rest ih =>
    rw [List.mapM_cons] at h
    rcases bind_eq_error h with ha | ⟨b, -, h⟩
    · exact ⟨a, List.mem_cons_self, ha⟩
    rcases bind_eq_error h with hrest | ⟨bs, -, h⟩
    · obtain ⟨b, hb, hfault⟩ := ih hrest
      exact ⟨b, List.mem_cons_of_mem a hb, hfault⟩
    · cases h

/-- A list is gone through to its end, unless one of its items gives an error. -/
theorem mapM_error_iff {ε α β : Type} {f : α → Except ε β} {l : List α} :
    (∃ e, l.mapM f = .error e) ↔ ∃ a ∈ l, ∃ e, f a = .error e := by
  constructor
  · rintro ⟨e, he⟩
    obtain ⟨a, ha, hfault⟩ := exists_of_mapM_error he
    exact ⟨a, ha, e, hfault⟩
  · rintro ⟨a, ha, e, he⟩
    induction l with
    | nil => cases ha
    | cons b rest ih =>
      rw [List.mapM_cons]
      cases hb : f b with
      | error e' => exact ⟨e', rfl⟩
      | ok c =>
        rcases List.mem_cons.1 ha with rfl | ha
        · cases hb.symm.trans he
        · obtain ⟨e', he'⟩ := ih ha
          exact ⟨e', by rw [ok_bind, he']; rfl⟩

/-- A list is gone through up to the first item that gives an error. -/
theorem mapM_eq_error_iff {ε α β : Type} {f : α → Except ε β} {l : List α} {e : ε} :
    l.mapM f = .error e ↔ ∃ before a after, l = before ++ a :: after ∧
      (∀ b ∈ before, ∃ c, f b = .ok c) ∧ f a = .error e := by
  constructor
  · intro h
    induction l with
    | nil => cases h
    | cons a rest ih =>
      rw [List.mapM_cons] at h
      rcases bind_eq_error h with ha | ⟨b, ha, h⟩
      · exact ⟨[], a, rest, rfl, nofun, ha⟩
      rcases bind_eq_error h with hrest | ⟨bs, -, h⟩
      · obtain ⟨before, a', after, rfl, hbefore, he⟩ := ih hrest
        exact ⟨a :: before, a', after, rfl, List.forall_mem_cons.2 ⟨⟨b, ha⟩, hbefore⟩, he⟩
      · cases h
  · rintro ⟨before, a, after, rfl, hbefore, he⟩
    induction before with
    | nil =>
      rw [List.nil_append, List.mapM_cons, he]
      rfl
    | cons b rest ih =>
      obtain ⟨⟨c, hb⟩, hrest⟩ := List.forall_mem_cons.1 hbefore
      rw [List.cons_append, List.mapM_cons, hb, ok_bind, ih hrest]
      rfl

/-- A list whose items all give answers gives one. -/
theorem mapM_ok {ε α β : Type} {f : α → Except ε β} {l : List α}
    (h : ∀ a ∈ l, ∃ b, f a = .ok b) : ∃ bs, l.mapM f = .ok bs := by
  induction l with
  | nil => exact ⟨[], rfl⟩
  | cons a rest ih =>
    obtain ⟨b, hb⟩ := h a List.mem_cons_self
    obtain ⟨bs, hbs⟩ := ih fun c hc => h c (List.mem_cons_of_mem _ hc)
    refine ⟨b :: bs, ?_⟩
    rw [List.mapM_cons, hb, ok_bind, hbs]
    rfl

/-- Where every item gives an answer, a list gives the list of them. -/
theorem mapM_eq_map {ε α β : Type} {f : α → Except ε β} {g : α → β} {l : List α}
    (h : ∀ a ∈ l, f a = .ok (g a)) : l.mapM f = .ok (l.map g) := by
  induction l with
  | nil => rfl
  | cons a rest ih =>
    obtain ⟨ha, hrest⟩ := List.forall_mem_cons.1 h
    rw [List.mapM_cons, ha, ok_bind, ih hrest]
    rfl

/-- Readers that give the same answers give the same lists, whatever their errors are. -/
theorem mapM_eq_ok_congr {ε ε' α β : Type} {f : α → Except ε β} {g : α → Except ε' β}
    (h : ∀ a b, f a = .ok b ↔ g a = .ok b) {l : List α} {bs : List β} :
    l.mapM f = .ok bs ↔ l.mapM g = .ok bs := by
  induction l generalizing bs with
  | nil => simp only [List.mapM_nil, pure, Except.pure, Except.ok.injEq]
  | cons a rest ih =>
    simp only [List.mapM_cons, bind_eq_ok_iff, h, ih, pure, Except.pure, Except.ok.injEq]

/-- Items that are read back one by one are read back as a list. -/
theorem mapM_map_of_forall {ε α β : Type} {read : β → Except ε α} {write : α → β} {l : List α}
    (h : ∀ a ∈ l, read (write a) = .ok a) : (l.map write).mapM read = .ok l := by
  induction l with
  | nil => rfl
  | cons a rest ih =>
    obtain ⟨ha, hrest⟩ := List.forall_mem_cons.1 h
    rw [List.map_cons, List.mapM_cons, ha, ih hrest]
    rfl

/-- What holds of each reading holds of a list of them. -/
theorem forall_of_mapM {ε α β : Type} {read : α → Except ε β} {P : β → Prop} {l : List α}
    {bs : List β} (h : l.mapM read = .ok bs) (hread : ∀ a b, read a = .ok b → P b) :
    ∀ b ∈ bs, P b := by
  intro b hb
  obtain ⟨a, -, ha⟩ := (mem_of_mapM h b).1 hb
  exact hread a b ha

end CloudAccess
