import CloudAccess.Proofs.Glob.Composition

/-!
# Actions in other letters

Case does not matter to the pattern of an action, but an action that is written just like the
pattern is covered at once, without being matched.  So two actions that are the same in lower case
are told apart exactly if one of them is the text of the pattern and the pattern does not match
its own text in lower case:

    lower a = lower b → (actionMatches p a = actionMatches p b ↔
      (a = p ↔ b = p) ∨ fits (lower p) (lower p))                         (actionMatches_recased)

A pattern without sets matches its own text, so it takes a set to tell them apart
(`case_of_set_matters`).
-/

namespace CloudAccess

/-! ## Lower case -/

namespace Text

/-- The maps to lower case that concern characters beyond ASCII all lead beyond the capitals. -/
theorem lowerRuns_beyond : ∀ run ∈ CaseTables.lowerRuns,
    run.2.1 < 128 ∨ 97 ≤ (run.1 : Int) + run.2.2.2 := by
  decide +kernel

theorem mapByRuns_beyond {n : Nat} (hn : 128 ≤ n) : 97 ≤ mapByRuns CaseTables.lowerRuns n := by
  unfold mapByRuns
  split
  · next lo hi stride shift hrun =>
    have hcovers := List.find?_some hrun
    simp only [Bool.and_eq_true, decide_eq_true_eq] at hcovers
    have hbeyond := lowerRuns_beyond _ (List.mem_of_find?_eq_some hrun)
    simp only at hbeyond
    omega
  · omega

theorem toLower_below : ∀ n < 128, (Char.ofNat n).toLower.toNat < 97 →
    (Char.ofNat n).toLower = Char.ofNat n := by
  decide

/-- A number that is no character is read as the first one of all. -/
theorem toNat_ofNat_or (n : Nat) : (Char.ofNat n).toNat = n ∨ (Char.ofNat n).toNat = 0 := by
  by_cases hn : n.isValidChar
  · exact .inl (congrArg Char.toNat (dif_pos hn))
  · exact .inr (congrArg Char.toNat (dif_neg hn))

/-- A character below the small letters stands for itself: no other one has it in lower case. -/
theorem lowerChar_below {c d : Char} (hd : d ∈ lowerChar c) (hpos : 0 < d.toNat)
    (hlt : d.toNat < 97) : d = c := by
  unfold lowerChar at hd
  split at hd
  · next hascii =>
    obtain rfl := List.mem_singleton.1 hd
    have h := toLower_below c.toNat hascii
    rw [Char.ofNat_toNat] at h
    exact h hlt
  split at hd
  · rcases List.mem_cons.1 hd with rfl | hd
    · exact absurd hlt (by decide)
    · obtain rfl := List.mem_singleton.1 hd
      exact absurd hlt (by decide)
  · next hascii _ =>
    obtain rfl := List.mem_singleton.1 hd
    have hbeyond := mapByRuns_beyond (Nat.le_of_not_lt hascii)
    have hn := toNat_ofNat_or (mapByRuns CaseTables.lowerRuns c.toNat)
    omega

theorem lowerFrom_below {d : Char} (hpos : 0 < d.toNat) (hlt : d.toNat < 97)
    {before cs : List Char} (hd : d ∈ lowerFrom before cs) : d ∈ cs := by
  induction cs generalizing before with
  | nil => cases hd
  | cons c cs ih =>
    rcases List.mem_append.1 hd with hd | hd
    · split at hd
      · have hsigma : d = 'ς' ∨ d = 'σ' := by
          split at hd
          · exact .inl (List.mem_singleton.1 hd)
          · exact .inr (List.mem_singleton.1 hd)
        rcases hsigma with rfl | rfl
        · exact absurd hlt (by decide)
        · exact absurd hlt (by decide)
      · exact lowerChar_below hd hpos hlt ▸ List.mem_cons_self
    · exact List.mem_cons_of_mem _ (ih hd)

end Text

/-! ## Patterns that match their own text -/

namespace Glob

theorem body?_none {cs : List Char} (h : ']' ∉ cs) : body? cs = none := by
  cases hb : body? cs with
  | none => rfl
  | some found =>
    refine absurd ?_ h
    rw [body?_joins hb]
    exact List.mem_append_right _ List.mem_cons_self

/-- A pattern that lacks one of the brackets has no sets, and matches its own text. -/
theorem accepts_self {cs : List Char} (h : '[' ∉ cs ∨ ']' ∉ cs) :
    accepts (ofText cs) cs = true := by
  induction cs with
  | nil => rfl
  | cons c cs ih =>
    have hrest : accepts (ofText cs) cs = true :=
      ih (h.imp List.not_mem_of_not_mem_cons List.not_mem_of_not_mem_cons)
    rw [ofText_cons]
    split
    · exact (accepts_star_iff _ _).2 ⟨[c], cs, rfl, hrest⟩
    split
    · exact (accepts_one (fun h => (by cases h)) _ _).2 ⟨c, cs, rfl, rfl, hrest⟩
    split
    · next hset =>
      subst hset
      have hopen : ']' ∉ cs := by
        rcases h with h | h
        · exact absurd List.mem_cons_self h
        · exact List.not_mem_of_not_mem_cons h
      rw [body?_none hopen]
      exact (accepts_char _ _ _).2 ⟨cs, rfl, hrest⟩
    · exact (accepts_char _ _ _).2 ⟨cs, rfl, hrest⟩

theorem fits_lower_self {pattern : String} (h : '[' ∉ pattern.toList ∨ ']' ∉ pattern.toList) :
    fits (Text.lower pattern) (Text.lower pattern) = true := by
  unfold fits Text.lower
  rw [String.toList_ofList]
  exact accepts_self (h.imp (mt (Text.lowerFrom_below (by decide) (by decide)))
    (mt (Text.lowerFrom_below (by decide) (by decide))))

end Glob

/-! ## Top theorem -/

/-- An action is covered if it is the text of the pattern, or if it is matched in lower case. -/
theorem actionMatches_eq (pattern a : String) :
    actionMatches pattern a =
      (decide (a = pattern) || Glob.fits (Text.lower pattern) (Text.lower a)) := by
  have hstar : pattern = "*" → Glob.fits (Text.lower pattern) (Text.lower a) = true := by
    rintro rfl
    exact Glob.accepts_star _
  unfold actionMatches
  rw [Bool.eq_iff_iff]
  simp only [Bool.or_eq_true, decide_eq_true_eq]
  constructor
  · rintro ((rfl | hp) | hfits)
    · exact .inl rfl
    · exact .inr (hstar hp)
    · exact .inr hfits
  · rintro (rfl | hfits)
    · exact .inl (.inl rfl)
    · exact .inr hfits

/-- **Where the case of an action matters.**  Actions that are the same in lower case are covered
alike, unless just one of them is the text of the pattern and the pattern does not match its own
text in lower case; a pattern that lacks one of the brackets does. -/
theorem actionMatches_recased {pattern a b : String} (h : Text.lower a = Text.lower b) :
    (actionMatches pattern a = actionMatches pattern b ↔
      (a = pattern ↔ b = pattern) ∨
        Glob.fits (Text.lower pattern) (Text.lower pattern) = true) ∧
    ('[' ∉ pattern.toList ∨ ']' ∉ pattern.toList →
      actionMatches pattern a = actionMatches pattern b) := by
  have alike : actionMatches pattern a = actionMatches pattern b ↔
      (a = pattern ↔ b = pattern) ∨
        Glob.fits (Text.lower pattern) (Text.lower pattern) = true := by
    rw [actionMatches_eq, actionMatches_eq, h]
    by_cases ha : a = pattern
    · subst ha
      by_cases hb : b = a
      · simp [hb]
      · simp [hb, h]
    · by_cases hb : b = pattern
      · subst hb
        simp [ha]
      · simp [ha, hb]
  exact ⟨alike, fun hp => alike.2 (.inr (Glob.fits_lower_self hp))⟩

/-- Reading objects is spelled in one way by a policy and in two others by those who ask. -/
theorem actionMatches_recased_getObject :
    let pattern := "s3:get?bject*"
    let a := "s3:GetObject"
    let b := "S3:GETOBJECT"
    Text.lower a = Text.lower b ∧ ('[' ∉ pattern.toList ∨ ']' ∉ pattern.toList) ∧
      actionMatches pattern a = true ∧ actionMatches pattern b = true := by
  intro pattern a b
  have hlower : Text.lower a = Text.lower b := by decide
  have hset : '[' ∉ pattern.toList ∨ ']' ∉ pattern.toList := .inl (by decide)
  have ha : actionMatches pattern a = true := by decide
  exact ⟨hlower, hset, ha, (actionMatches_recased hlower).2 hset ▸ ha⟩

/-- The text of a pattern with a set is covered by the pattern, but not in lower case: the set
stands for one letter and not for itself. -/
theorem case_of_set_matters :
    let pattern := "s3:[GP]etObject"
    let recased := "s3:[gp]etobject"
    Text.lower pattern = Text.lower recased ∧ actionMatches pattern pattern = true ∧
      actionMatches pattern recased = false := by
  decide

end CloudAccess
