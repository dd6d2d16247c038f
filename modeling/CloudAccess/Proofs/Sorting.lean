import CloudAccess.Proofs.Outcomes
import CloudAccess.Sorting

/-!
# Sorting rearranges

Whatever the comparison says, a sort that ends gives back the items that it was given:

    sortWith before items = .ok sorted → sorted.Perm items                  (perm_of_sortWith)

No order is asked of the comparison.  Each part of the sort is followed on its own: stretches are
cut from the items (`perm_of_stretch`), a merge under way holds the items of both lists
(`Merging.items`), and the stretches found so far with those not looked at are all there is
(`Piles.items`).
-/

namespace CloudAccess

namespace Sorting

variable {ε α σ : Type} {before : α → α → Except ε Bool}

/-! ## Stretches -/

theorem risingRun_append {last : α} {items run others : List α}
    (h : risingRun before last items = .ok (run, others)) : run ++ others = items := by
  induction items generalizing last run others with
  | nil =>
    obtain ⟨rfl, rfl⟩ := Prod.mk.inj (Except.ok.inj h)
    rfl
  | cons a rest ih =>
    rw [risingRun] at h
    obtain ⟨less, -, h⟩ := bind_eq_ok h
    cases less with
    | true =>
      obtain ⟨rfl, rfl⟩ := Prod.mk.inj (Except.ok.inj h)
      rfl
    | false =>
      obtain ⟨⟨run', others'⟩, hrun, h⟩ := bind_eq_ok h
      obtain ⟨rfl, rfl⟩ := Prod.mk.inj (Except.ok.inj h)
      exact congrArg (a :: ·) (ih hrun)

theorem fallingRun_append {last : α} {items run others : List α}
    (h : fallingRun before last items = .ok (run, others)) : run ++ others = items := by
  induction items generalizing last run others with
  | nil =>
    obtain ⟨rfl, rfl⟩ := Prod.mk.inj (Except.ok.inj h)
    rfl
  | cons a rest ih =>
    rw [fallingRun] at h
    obtain ⟨less, -, h⟩ := bind_eq_ok h
    cases less with
    | true =>
      obtain ⟨⟨run', others'⟩, hrun, h⟩ := bind_eq_ok h
      obtain ⟨rfl, rfl⟩ := Prod.mk.inj (Except.ok.inj h)
      exact congrArg (a :: ·) (ih hrun)
    | false =>
      obtain ⟨rfl, rfl⟩ := Prod.mk.inj (Except.ok.inj h)
      rfl

/-- The leading run is cut from the items, and has one if there is any. -/
theorem perm_of_leadingRun {items run others : List α}
    (h : leadingRun before items = .ok (run, others)) :
    (run ++ others).Perm items ∧ (items ≠ [] → run ≠ []) := by
  match items with
  | [] =>
    obtain ⟨rfl, rfl⟩ := Prod.mk.inj (Except.ok.inj h)
    exact ⟨.refl _, id⟩
  | [a] =>
    obtain ⟨rfl, rfl⟩ := Prod.mk.inj (Except.ok.inj h)
    exact ⟨.refl _, fun _ => List.cons_ne_nil a []⟩
  | a :: b :: rest =>
    rw [leadingRun] at h
    obtain ⟨less, -, h⟩ := bind_eq_ok h
    cases less with
    | true =>
      obtain ⟨⟨run', others'⟩, hrun, h⟩ := bind_eq_ok h
      obtain ⟨rfl, rfl⟩ := Prod.mk.inj (Except.ok.inj h)
      rw [← fallingRun_append hrun]
      exact ⟨(List.reverse_perm _).append_right _, fun _ => by simp⟩
    | false =>
      obtain ⟨⟨run', others'⟩, hrun, h⟩ := bind_eq_ok h
      obtain ⟨rfl, rfl⟩ := Prod.mk.inj (Except.ok.inj h)
      rw [← risingRun_append hrun]
      exact ⟨.refl _, fun _ => List.cons_ne_nil a _⟩

theorem perm_of_place {a : α} {items sorted : List α} (h : place before a items = .ok sorted) :
    sorted.Perm (a :: items) := by
  obtain ⟨n, -, h⟩ := bind_eq_ok h
  obtain rfl := Except.ok.inj h
  refine List.perm_middle.trans ?_
  rw [List.take_append_drop]

theorem perm_of_foldlM_place {items run sorted : List α}
    (h : items.foldlM (fun sorted a => place before a sorted) run = .ok sorted) :
    sorted.Perm (run ++ items) := by
  induction items generalizing run with
  | nil =>
    obtain rfl := Except.ok.inj h
    rw [List.append_nil]
  | cons a rest ih =>
    rw [List.foldlM_cons] at h
    obtain ⟨placed, hplaced, h⟩ := bind_eq_ok h
    exact (ih h).trans (((perm_of_place hplaced).append_right rest).trans List.perm_middle.symm)

/-- A stretch is cut from the items, and has one if there is any. -/
theorem perm_of_stretch {least : Nat} {items run others : List α}
    (h : stretch before least items = .ok (run, others)) :
    (run ++ others).Perm items ∧ (items ≠ [] → others.length < items.length) := by
  unfold stretch at h
  obtain ⟨⟨lead, after⟩, hlead, h⟩ := bind_eq_ok h
  obtain ⟨filled, hfilled, h⟩ := bind_eq_ok h
  obtain ⟨rfl, rfl⟩ := Prod.mk.inj (Except.ok.inj h)
  obtain ⟨hperm, hne⟩ := perm_of_leadingRun hlead
  have hall : (filled ++ after.drop (least - lead.length)).Perm (lead ++ after) := by
    refine ((perm_of_foldlM_place hfilled).append_right _).trans ?_
    rw [List.append_assoc, List.take_append_drop]
  refine ⟨hall.trans hperm, fun hitems => ?_⟩
  have hlead : 0 < lead.length := List.length_pos_iff.2 (hne hitems)
  have hlength := hperm.length_eq
  rw [List.length_append] at hlength
  rw [List.length_drop]
  omega

/-! ## Steps -/

/-- What every step keeps holds in the end. -/
theorem advance_keeps {done : σ → Bool} {step : σ → Except ε σ} {P : σ → Prop}
    (hstep : ∀ s s', step s = .ok s' → P s → P s') {n : Nat} {s s' : σ}
    (h : advance done step n s = .ok s') (hs : P s) : P s' := by
  induction n generalizing s with
  | zero => exact Except.ok.inj h ▸ hs
  | succ n ih =>
    rw [advance] at h
    split at h
    · exact Except.ok.inj h ▸ hs
    · obtain ⟨next, hnext, h⟩ := bind_eq_ok h
      exact ih h (hstep _ _ hnext hs)

/-- When every step leaves less to do, enough of them leave nothing. -/
theorem advance_done {done : σ → Bool} {step : σ → Except ε σ} {left : σ → Nat}
    (hdone : ∀ s, left s = 0 → done s = true)
    (hstep : ∀ s s', done s = false → step s = .ok s' → left s' < left s) {n : Nat} {s s' : σ}
    (h : advance done step n s = .ok s') (hn : left s ≤ n) : done s' = true := by
  induction n generalizing s with
  | zero =>
    obtain rfl := Except.ok.inj h
    exact hdone s (Nat.le_zero.1 hn)
  | succ n ih =>
    rw [advance] at h
    split at h
    · next hd => exact Except.ok.inj h ▸ hd
    · next hd =>
      obtain ⟨next, hnext, h⟩ := bind_eq_ok h
      have hless := hstep s next (Bool.not_eq_true _ ▸ hd) hnext
      exact ih h (by omega)

/-! ## Merging -/

namespace Merging

/-- All items that a merge is about. -/
def items (m : Merging α) : List α := m.taken ++ (m.first ++ m.second)

theorem perm_takeFirst (n : Nat) (m : Merging α) : (m.takeFirst n).items.Perm m.items := by
  unfold items takeFirst
  dsimp only
  calc ((m.first.take n).reverse ++ m.taken ++ (m.first.drop n ++ m.second)).Perm
        (m.taken ++ m.first.take n ++ (m.first.drop n ++ m.second)) :=
        (((List.reverse_perm _).append_right _).trans List.perm_append_comm).append_right _
    _ = m.taken ++ (m.first ++ m.second) := by
        rw [List.append_assoc, ← List.append_assoc (m.first.take n), List.take_append_drop]

theorem perm_takeSecond (n : Nat) (m : Merging α) : (m.takeSecond n).items.Perm m.items := by
  unfold items takeSecond
  dsimp only
  calc ((m.second.take n).reverse ++ m.taken ++ (m.first ++ m.second.drop n)).Perm
        (m.taken ++ (m.first ++ m.second.drop n) ++ m.second.take n) := by
        rw [List.append_assoc]
        exact ((List.reverse_perm _).append_right _).trans List.perm_append_comm
    _ = m.taken ++ (m.first ++ (m.second.drop n ++ m.second.take n)) := by
        rw [List.append_assoc, List.append_assoc]
    (m.taken ++ (m.first ++ (m.second.drop n ++ m.second.take n))).Perm
        (m.taken ++ (m.first ++ m.second)) := by
        have hcut : (m.second.drop n ++ m.second.take n).Perm m.second :=
          List.perm_append_comm.trans (by rw [List.take_append_drop])
        exact (hcut.append_left _).append_left _

theorem items_leapOn (d : Direction) (first second : Nat) (m : Merging α) :
    (m.leapOn d first second).items = m.items := by
  unfold leapOn
  split
  · rfl
  · split <;> rfl

theorem perm_of_step {d : Direction} {m m' : Merging α} (h : m.step d before = .ok m') :
    m'.items.Perm m.items := by
  unfold step at h
  split at h
  · split at h
    · -- item by item
      obtain ⟨fromFirst, -, h⟩ := bind_eq_ok h
      cases fromFirst with
      | true =>
        obtain rfl := Except.ok.inj h
        exact perm_takeFirst 1 m
      | false =>
        obtain rfl := Except.ok.inj h
        exact perm_takeSecond 1 m
    · obtain ⟨n, -, h⟩ := bind_eq_ok h
      obtain rfl := Except.ok.inj h
      exact (perm_takeSecond 1 (m.takeFirst n)).trans (perm_takeFirst n m)
    · obtain ⟨n, -, h⟩ := bind_eq_ok h
      obtain rfl := Except.ok.inj h
      rw [items_leapOn]
      exact (perm_takeFirst 1 (m.takeSecond n)).trans (perm_takeSecond n m)
  · obtain rfl := Except.ok.inj h
    rfl

theorem perm_result (d : Direction) (m : Merging α) : (m.result d).Perm m.items := by
  unfold result items
  refine List.Perm.append (List.reverse_perm _) ?_
  cases d with
  | up => exact List.perm_append_comm
  | down => exact .refl _

theorem perm_of_finish {d : Direction} {m : Merging α} {merged : List α} {patience : Nat}
    (h : m.finish d before = .ok (merged, patience)) : merged.Perm m.items := by
  obtain ⟨m', hend, h⟩ := bind_eq_ok h
  obtain ⟨rfl, -⟩ := Prod.mk.inj (Except.ok.inj h)
  have hitems : m'.items.Perm m.items :=
    advance_keeps (fun s s' hs (hp : s.items.Perm m.items) => (perm_of_step hs).trans hp) hend
      (.refl _)
  exact (perm_result d m').trans hitems

end Merging

theorem perm_of_merge {first second merged : List α} {patience patience' : Nat}
    (h : merge before patience first second = .ok (merged, patience')) :
    merged.Perm (first ++ second) := by
  unfold merge at h
  cases second with
  | nil =>
    obtain ⟨rfl, -⟩ := Prod.mk.inj (Except.ok.inj h)
    rw [List.append_nil]
  | cons b bs =>
    obtain ⟨settled, -, h⟩ := bind_eq_ok h
    split at h
    · obtain ⟨rfl, -⟩ := Prod.mk.inj (Except.ok.inj h)
      exact .refl _
    · next a others hsplit =>
      obtain ⟨beyond, -, h⟩ := bind_eq_ok h
      -- the parts at both ends stay, and what is between them is merged
      let within := (b :: bs).take ((b :: bs).length - beyond)
      let above := (b :: bs).drop ((b :: bs).length - beyond)
      obtain ⟨middle, hperm, rfl⟩ : ∃ middle, middle.Perm (first.drop settled ++ within) ∧
          first.take settled ++ middle ++ above = merged := by
        dsimp only at h
        split at h
        · obtain ⟨⟨middle, patience₁⟩, hmiddle, h⟩ := bind_eq_ok h
          exact ⟨middle, (Merging.perm_of_finish hmiddle).trans (Merging.perm_takeSecond 1 _),
            (Prod.mk.inj (Except.ok.inj h)).1⟩
        · obtain ⟨⟨items, patience₁⟩, hitems, h⟩ := bind_eq_ok h
          refine ⟨items.reverse, ?_, (Prod.mk.inj (Except.ok.inj h)).1⟩
          refine (List.reverse_perm _).trans ((Merging.perm_of_finish hitems).trans
            ((Merging.perm_takeFirst 1 _).trans ?_))
          rw [← hsplit]
          exact (List.reverse_perm (first.drop settled)).append (List.reverse_perm within)
      have hall := (hperm.append_left (first.take settled)).append_right above
      rw [← List.append_assoc, List.take_append_drop, List.append_assoc first,
        List.take_append_drop] at hall
      exact hall

/-! ## Piles -/

/-- The items of the stretches that lie before the last one. -/
def itemsBefore (earlier : List (List α × Nat)) : List α := (earlier.map (·.1)).flatten

theorem perm_of_settle {level patience patience' : Nat} {last last' : List α}
    {earlier earlier' : List (List α × Nat)}
    (h : settle before level patience last earlier = .ok (last', earlier', patience')) :
    (last' ++ itemsBefore earlier').Perm (last ++ itemsBefore earlier) := by
  induction earlier generalizing patience last with
  | nil =>
    obtain ⟨rfl, hrest⟩ := Prod.mk.inj (Except.ok.inj h)
    obtain ⟨rfl, -⟩ := Prod.mk.inj hrest
    exact .refl _
  | cons pile earlier ih =>
    obtain ⟨items, parting⟩ := pile
    rw [settle] at h
    split at h
    · obtain ⟨rfl, hrest⟩ := Prod.mk.inj (Except.ok.inj h)
      obtain ⟨rfl, -⟩ := Prod.mk.inj hrest
      exact .refl _
    · obtain ⟨⟨merged, patience₁⟩, hmerged, h⟩ := bind_eq_ok h
      refine (ih h).trans ?_
      have hboth := (perm_of_merge hmerged).trans List.perm_append_comm
      refine (hboth.append_right (itemsBefore earlier)).trans ?_
      rw [List.append_assoc]
      exact .refl _

/-- All items of the stretches, and those not looked at. -/
def Piles.items (p : Piles α) : List α := p.last ++ itemsBefore p.earlier ++ p.rest

theorem Piles.perm_of_next {total : Nat} {p p' : Piles α} (h : p.next before total = .ok p') :
    p'.items.Perm p.items ∧ (p.rest ≠ [] → p'.rest.length < p.rest.length) := by
  unfold Piles.next at h
  obtain ⟨⟨run, rest⟩, hrun, h⟩ := bind_eq_ok h
  obtain ⟨⟨last, earlier, patience⟩, hsettle, h⟩ := bind_eq_ok h
  obtain rfl := Except.ok.inj h
  obtain ⟨hcut, hless⟩ := perm_of_stretch hrun
  refine ⟨?_, hless⟩
  show (run ++ (last ++ itemsBefore earlier) ++ rest).Perm
    (p.last ++ itemsBefore p.earlier ++ p.rest)
  refine (List.perm_append_comm.append_right rest).trans ?_
  rw [List.append_assoc]
  exact (perm_of_settle hsettle).append hcut

theorem perm_of_collapse {patience : Nat} {last sorted : List α} {earlier : List (List α)}
    (h : collapse before patience last earlier = .ok sorted) :
    sorted.Perm (last ++ earlier.flatten) := by
  induction hn : earlier.length generalizing patience last earlier with
  | zero =>
    obtain rfl := List.length_eq_zero_iff.1 hn
    rw [collapse] at h
    obtain rfl := Except.ok.inj h
    rw [List.flatten_nil, List.append_nil]
  | succ n ih =>
    obtain ⟨b, others, rfl⟩ := List.exists_cons_of_length_eq_add_one hn
    have hlength : others.length = n := Nat.succ.inj hn
    cases others with
    | nil =>
      rw [collapse] at h
      obtain ⟨⟨merged, patience₁⟩, hmerged, h⟩ := bind_eq_ok h
      obtain rfl := Except.ok.inj h
      rw [List.flatten_singleton]
      exact (perm_of_merge hmerged).trans List.perm_append_comm
    | cons a earlier =>
      rw [collapse] at h
      split at h
      · obtain ⟨⟨merged, patience₁⟩, hmerged, h⟩ := bind_eq_ok h
        refine (ih h hlength).trans (List.Perm.append_left last ?_)
        rw [List.flatten_cons, List.flatten_cons, List.flatten_cons, ← List.append_assoc]
        exact ((perm_of_merge hmerged).trans List.perm_append_comm).append_right _
      · obtain ⟨⟨merged, patience₁⟩, hmerged, h⟩ := bind_eq_ok h
        refine (ih h hlength).trans ?_
        rw [show (b :: a :: earlier).flatten = b ++ (a :: earlier).flatten from rfl,
          ← List.append_assoc]
        exact ((perm_of_merge hmerged).trans List.perm_append_comm).append_right _

end Sorting

open Sorting

/-- **What is sorted is rearranged.**  A sort that ends gives the items that it was given, whatever
comes before what. -/
theorem perm_of_sortWith {ε α : Type} {before : α → α → Except ε Bool} {items sorted : List α}
    (h : sortWith before items = .ok sorted) : sorted.Perm items := by
  obtain ⟨⟨first, rest⟩, hfirst, h⟩ := bind_eq_ok h
  obtain ⟨piles, hpiles, h⟩ := bind_eq_ok h
  obtain ⟨hcut, -⟩ := perm_of_stretch hfirst
  have hitems : piles.items.Perm items := by
    have hstart : (Piles.mk first [] longLeap first.length rest).items.Perm items := by
      rw [Piles.items, show itemsBefore ([] : List (List α × Nat)) = [] from rfl, List.append_nil]
      exact hcut
    have hstep (p p' : Piles α) (hp : p.next before items.length = .ok p')
        (hperm : p.items.Perm items) : p'.items.Perm items :=
      (Piles.perm_of_next hp).1.trans hperm
    exact advance_keeps hstep hpiles hstart
  have hrest : piles.rest = [] := by
    have hlength : rest.length ≤ items.length := by
      rw [← hcut.length_eq, List.length_append]
      exact Nat.le_add_left _ _
    have hleft (p p' : Piles α) (hopen : p.rest.isEmpty = false)
        (hp : p.next before items.length = .ok p') : p'.rest.length < p.rest.length :=
      (Piles.perm_of_next hp).2 fun hnil => by rw [hnil] at hopen; cases hopen
    have hempty : piles.rest.isEmpty = true :=
      advance_done (fun p hp => List.isEmpty_iff.2 (List.length_eq_zero_iff.1 hp)) hleft hpiles
        hlength
    exact List.isEmpty_iff.1 hempty
  rw [Piles.items, hrest, List.append_nil] at hitems
  exact (perm_of_collapse h).trans hitems

end CloudAccess
