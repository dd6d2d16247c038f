import CloudAccess.Proofs.Json.Numerals
import CloudAccess.Proofs.Outcomes
import Mathlib

/-!
# Values that JSON text can hold

A value is proper if JSON text can hold it: the members of an object have different names, integers
are not too long, and there is one NaN.  What is read from a text is proper:

    read text = .ok v  →  v.Proper                                              (proper_of_read)
-/

namespace CloudAccess

namespace Json

/-- A value that JSON text can hold. -/
inductive Proper : Json → Prop where
  | null : Proper .null
  | bool (b : Bool) : Proper (.bool b)
  | int (n : Int) (short : (natDigits n.natAbs).length ≤ integerDigits) : Proper (.int n)
  | float (x : Double) (one : x.isNaN = true → x = .quietNaN) : Proper (.float x)
  | str (s : String) : Proper (.str s)
  | arr (items : List Json) (proper : ∀ v ∈ items, Proper v) : Proper (.arr items)
  | obj (ms : Members) (distinct : (ms.map (·.1)).Nodup) (proper : ∀ m ∈ ms, Proper m.2) :
    Proper (.obj ms)

theorem proper_int_iff {n : Int} :
    (int n).Proper ↔ (natDigits n.natAbs).length ≤ integerDigits :=
  ⟨fun h => by cases h; assumption, .int n⟩

theorem proper_float_iff {x : Double} : (float x).Proper ↔ (x.isNaN = true → x = .quietNaN) :=
  ⟨fun h => by cases h; assumption, .float x⟩

theorem proper_arr_iff {vs : List Json} : (arr vs).Proper ↔ ∀ v ∈ vs, v.Proper :=
  ⟨fun h => by cases h; assumption, .arr vs⟩

theorem proper_obj_iff {ms : Members} :
    (obj ms).Proper ↔ (ms.map (·.1)).Nodup ∧ ∀ m ∈ ms, m.2.Proper :=
  ⟨fun h => by cases h; constructor <;> assumption, fun h => .obj ms h.1 h.2⟩

theorem digital_of_wholePart? {cs whole rest : List Char}
    (h : wholePart? cs = some (whole, rest)) : Digital whole ∧ whole ≠ [] := by
  unfold wholePart? at h
  split at h
  · obtain ⟨rfl, -⟩ := Prod.mk.inj (Option.some.inj h)
    exact ⟨digital_zeros 1, List.cons_ne_nil _ _⟩
  · split at h
    · cases h
    · next hne =>
      obtain ⟨rfl, -⟩ := Prod.mk.inj (Option.some.inj h)
      exact ⟨fun c hc => List.mem_takeWhile_imp hc, hne⟩

/-- A numeral that is read is not longer when it is written again. -/
theorem length_natDigits_le {cs : List Char} (hcs : Digital cs) (hne : cs ≠ []) :
    (natDigits (natOfDigits cs)).length ≤ cs.length :=
  (Digits.length_natDigits_le_iff (List.length_pos_iff.2 hne)).2 (natOfDigits_lt hcs)

theorem proper_of_unsigned {negative : Bool} {start cs out : List Char} {v : Json}
    (h : unsigned negative start cs = .ok (v, out)) : v.Proper := by
  unfold unsigned at h
  split at h
  · cases h
  next whole rest hwhole =>
  obtain ⟨hdigital, hne⟩ := digital_of_wholePart? hwhole
  dsimp only at h
  split at h
  · split at h
    · cases h
    · next hshort =>
      obtain ⟨rfl, -⟩ := Prod.mk.inj (Except.ok.inj h)
      apply Proper.int
      have habs : (if negative = true then -(natOfDigits whole : Int)
          else natOfDigits whole).natAbs = natOfDigits whole := by
        split <;> omega
      rw [habs]
      exact (length_natDigits_le hdigital hne).trans (not_lt.1 hshort)
  · obtain ⟨rfl, -⟩ := Prod.mk.inj (Except.ok.inj h)
    apply Proper.float
    rw [Double.isNaN_ofDecimal]
    nofun

/-! ## Members that are read -/

theorem mem_setMember {n : String} {v : Json} {ms : Members} {m : String × Json}
    (h : m ∈ setMember n v ms) : m.2 = v ∨ m ∈ ms := by
  induction ms with
  | nil =>
    rw [setMember, List.mem_singleton] at h
    exact .inl (congrArg Prod.snd h)
  | cons m' ms ih =>
    rw [setMember] at h
    split at h
    · rcases List.mem_cons.1 h with rfl | h
      · exact .inl rfl
      · exact .inr (List.mem_cons_of_mem _ h)
    · rcases List.mem_cons.1 h with rfl | h
      · exact .inr List.mem_cons_self
      · exact (ih h).imp_right (List.mem_cons_of_mem _)

/-- A name is new or has its place. -/
theorem names_setMember (n : String) (v : Json) (ms : Members) :
    (setMember n v ms).map (·.1) =
      if n ∈ ms.map (·.1) then ms.map (·.1) else ms.map (·.1) ++ [n] := by
  induction ms with
  | nil => rfl
  | cons m ms ih =>
    rw [setMember]
    by_cases hn : m.1 = n
    · rw [if_pos hn, List.map_cons, List.map_cons, if_pos (hn ▸ List.mem_cons_self)]
    · rw [if_neg hn, List.map_cons, List.map_cons, ih]
      by_cases hmem : n ∈ ms.map (·.1)
      · rw [if_pos hmem, if_pos (List.mem_cons_of_mem _ hmem)]
      · rw [if_neg hmem, if_neg (by simp [hmem, Ne.symm hn]), List.cons_append]

theorem nodup_setMember {n : String} {v : Json} {ms : Members} (h : (ms.map (·.1)).Nodup) :
    ((setMember n v ms).map (·.1)).Nodup := by
  rw [names_setMember]
  split
  · exact h
  · next hn =>
    exact List.nodup_append.2 ⟨h, List.nodup_singleton n, fun a ha b hb => by
      rw [List.mem_singleton.1 hb]
      rintro rfl
      exact hn ha⟩

/-- Members that are read one by one make a proper object. -/
theorem proper_obj_foldl {ms : Members} (h : ∀ m ∈ ms, m.2.Proper) :
    (Json.obj (ms.foldl (fun seen (n, v) => setMember n v seen) [])).Proper := by
  induction ms using List.reverseRecOn with
  | nil => exact .obj [] List.nodup_nil nofun
  | append_singleton ms m ih =>
    rw [List.foldl_append]
    cases ih fun m' hm => h m' (List.mem_append_left _ hm) with
    | obj _ hdistinct hproper =>
      refine .obj _ (nodup_setMember hdistinct) fun m' hm => ?_
      rcases mem_setMember hm with heq | hm
      · rw [heq]
        exact h m (List.mem_append_right _ List.mem_cons_self)
      · exact hproper m' hm

/-! ## Values that are read -/

/-- With so much fuel, readers give proper values. -/
structure ReadsProper (fuel : Nat) : Prop where
  value : ∀ {cs v out}, Json.value fuel cs = .ok (v, out) → v.Proper
  members : ∀ {cs ms out}, Json.members fuel cs = .ok (ms, out) → ∀ m ∈ ms, m.2.Proper
  items : ∀ {cs vs out}, Json.items fuel cs = .ok (vs, out) → ∀ v ∈ vs, v.Proper

section

variable {fuel : Nat} (ih : ReadsProper fuel) {cs out : List Char}

include ih

theorem ReadsProper.value_succ {v : Json} (h : Json.value (fuel + 1) cs = .ok (v, out)) :
    v.Proper := by
  unfold Json.value at h
  split at h
  · obtain ⟨⟨s, rest⟩, -, h⟩ := bind_eq_ok h
    obtain ⟨rfl, -⟩ := Prod.mk.inj (Except.ok.inj h)
    exact .str _
  · split at h
    · obtain ⟨rfl, -⟩ := Prod.mk.inj (Except.ok.inj h)
      exact .obj [] List.nodup_nil nofun
    · obtain ⟨⟨ms, rest⟩, hms, h⟩ := bind_eq_ok h
      obtain ⟨rfl, -⟩ := Prod.mk.inj (Except.ok.inj h)
      exact proper_obj_foldl (ih.members hms)
  · split at h
    · obtain ⟨rfl, -⟩ := Prod.mk.inj (Except.ok.inj h)
      exact .arr [] nofun
    · obtain ⟨⟨vs, rest⟩, hvs, h⟩ := bind_eq_ok h
      obtain ⟨rfl, -⟩ := Prod.mk.inj (Except.ok.inj h)
      exact .arr vs (ih.items hvs)
  · obtain ⟨rfl, -⟩ := Prod.mk.inj (Except.ok.inj h)
    exact .null
  · obtain ⟨rfl, -⟩ := Prod.mk.inj (Except.ok.inj h)
    exact .bool true
  · obtain ⟨rfl, -⟩ := Prod.mk.inj (Except.ok.inj h)
    exact .bool false
  · obtain ⟨rfl, -⟩ := Prod.mk.inj (Except.ok.inj h)
    exact .float _ fun _ => rfl
  · obtain ⟨rfl, -⟩ := Prod.mk.inj (Except.ok.inj h)
    exact .float _ nofun
  · obtain ⟨rfl, -⟩ := Prod.mk.inj (Except.ok.inj h)
    exact .float _ nofun
  · exact proper_of_unsigned h
  · exact proper_of_unsigned h

theorem ReadsProper.members_succ {ms : Members} (h : Json.members (fuel + 1) cs = .ok (ms, out)) :
    ∀ m ∈ ms, m.2.Proper := by
  unfold Json.members at h
  split at h
  · obtain ⟨⟨n, rest⟩, -, h⟩ := bind_eq_ok h
    dsimp only at h
    split at h
    · obtain ⟨⟨v, rest'⟩, hv, h⟩ := bind_eq_ok h
      dsimp only at h
      split at h
      · obtain ⟨rfl, -⟩ := Prod.mk.inj (Except.ok.inj h)
        exact List.forall_mem_singleton.2 (ih.value hv)
      · obtain ⟨⟨ms', out'⟩, hms, h⟩ := bind_eq_ok h
        obtain ⟨rfl, -⟩ := Prod.mk.inj (Except.ok.inj h)
        exact List.forall_mem_cons.2 ⟨ih.value hv, ih.members hms⟩
      · cases h
    · cases h
  · cases h

theorem ReadsProper.items_succ {vs : List Json} (h : Json.items (fuel + 1) cs = .ok (vs, out)) :
    ∀ v ∈ vs, v.Proper := by
  unfold Json.items at h
  obtain ⟨⟨v, rest⟩, hv, h⟩ := bind_eq_ok h
  dsimp only at h
  split at h
  · obtain ⟨rfl, -⟩ := Prod.mk.inj (Except.ok.inj h)
    exact List.forall_mem_singleton.2 (ih.value hv)
  · obtain ⟨⟨ws, out'⟩, hws, h⟩ := bind_eq_ok h
    obtain ⟨rfl, -⟩ := Prod.mk.inj (Except.ok.inj h)
    exact List.forall_mem_cons.2 ⟨ih.value hv, ih.items hws⟩
  · cases h

end

theorem readsProper (fuel : Nat) : ReadsProper fuel := by
  induction fuel with
  | zero => exact ⟨nofun, nofun, nofun⟩
  | succ fuel ih => exact ⟨ih.value_succ, ih.members_succ, ih.items_succ⟩

/-- What is read from a text is proper. -/
theorem proper_of_read {text : String} {v : Json} (h : read text = .ok v) : v.Proper := by
  unfold read at h
  dsimp only at h
  split at h
  · next hdocument =>
    obtain rfl := Except.ok.inj h
    unfold document at hdocument
    split at hdocument
    · cases hdocument
    · obtain ⟨⟨w, rest⟩, hw, hdocument⟩ := bind_eq_ok hdocument
      dsimp only at hdocument
      split at hdocument
      · obtain rfl := Except.ok.inj hdocument
        exact (readsProper _).value hw
      · cases hdocument
  · cases h
  · cases h

end Json
end CloudAccess
