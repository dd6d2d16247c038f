import CloudAccess.Proofs.Glob.Literal

/-!
# Every piece at its earliest place

A pattern is a lead, which stands before the first star, and the pieces that stand after the stars.
`Glob.settles` matches without going back: it takes the lead off the text, puts each piece in turn
at the earliest place that is left for it, and the last piece at the end of the text.  No match is
lost by that:

    settles ts text = accepts ts text                                          (settles_eq_accepts)

A piece that is put at an earlier place leaves more of the text, and what follows it starts with a
star, which takes the rest.
-/

namespace CloudAccess.Glob

/-! ## Algorithm -/

/-- The tokens before the first star, and those after each star up to the next one. -/
def cut : List Token → List Token × List (List Token)
  | [] => ([], [])
  | .star :: ts => ([], (cut ts).1 :: (cut ts).2)
  | t :: ts => (t :: (cut ts).1, (cut ts).2)

/-- What is left of a text when each token has taken one character from its start. -/
def afterStart? : List Token → List Char → Option (List Char)
  | [], text => some text
  | _ :: _, [] => none
  | t :: ts, c :: cs => if t.admits c then afterStart? ts cs else none

/-- What is left of a text after the earliest place where a piece fits. -/
def afterFirst? (piece : List Token) : List Char → Option (List Char)
  | [] => afterStart? piece []
  | c :: cs => (afterStart? piece (c :: cs)).or (afterFirst? piece cs)

/-- Whether a piece fits at the end of a text. -/
def endsIn (piece : List Token) (text : List Char) : Bool :=
  afterStart? piece (text.drop (text.length - piece.length)) = some []

/-- Puts pieces that come after stars into a text, one after the other. -/
def places : List (List Token) → List Char → Bool
  | [], text => text.isEmpty
  | [last], text => endsIn last text
  | piece :: next :: pieces, text =>
    match afterFirst? piece text with
    | none => false
    | some rest => places (next :: pieces) rest

/-- Matches tokens with the whole of a text, each piece at its earliest place. -/
def settles (ts : List Token) (text : List Char) : Bool :=
  match afterStart? (cut ts).1 text with
  | none => false
  | some rest => places (cut ts).2 rest

/-! ## Lead and pieces -/

/-- Pieces as the tokens they are cut from, each after its star. -/
def starred (pieces : List (List Token)) : List Token := pieces.flatMap (.star :: ·)

theorem starred_cons (piece : List Token) (pieces : List (List Token)) :
    starred (piece :: pieces) = .star :: (piece ++ starred pieces) := rfl

theorem cut_star (ts : List Token) : cut (.star :: ts) = ([], (cut ts).1 :: (cut ts).2) := rfl

theorem cut_one {t : Token} (ht : t ≠ .star) (ts : List Token) :
    cut (t :: ts) = (t :: (cut ts).1, (cut ts).2) := by
  cases t with
  | star => exact absurd rfl ht
  | _ => rfl

theorem cut_joins (ts : List Token) : (cut ts).1 ++ starred (cut ts).2 = ts := by
  induction ts with
  | nil => rfl
  | cons t ts ih =>
    by_cases ht : t = .star
    · subst ht
      rw [cut_star, starred_cons, ih, List.nil_append]
    · rw [cut_one ht, List.cons_append, ih]

/-- Neither the lead nor a piece has a star. -/
theorem cut_starless (ts : List Token) :
    .star ∉ (cut ts).1 ∧ ∀ piece ∈ (cut ts).2, .star ∉ piece := by
  induction ts with
  | nil => exact ⟨List.not_mem_nil, fun _ h => absurd h List.not_mem_nil⟩
  | cons t ts ih =>
    by_cases ht : t = .star
    · subst ht
      rw [cut_star]
      exact ⟨List.not_mem_nil, List.forall_mem_cons.2 ih⟩
    · rw [cut_one ht]
      exact ⟨fun h => (List.mem_cons.1 h).elim (fun h => ht h.symm) ih.1, ih.2⟩

/-! ## Pieces without stars -/

theorem afterStart?_eq_drop {piece : List Token} {text rest : List Char}
    (h : afterStart? piece text = some rest) :
    piece.length ≤ text.length ∧ rest = text.drop piece.length := by
  fun_induction afterStart? piece text with
  | case1 text =>
    obtain rfl := Option.some.inj h
    exact ⟨Nat.zero_le _, rfl⟩
  | case2 => cases h
  | case3 t ts c cs hc ih =>
    obtain ⟨hlength, hrest⟩ := ih h
    exact ⟨Nat.succ_le_succ hlength, hrest⟩
  | case4 => cases h

/-- Tokens other than stars take their characters from the start of the text. -/
theorem accepts_append_of_starless {piece : List Token} (hp : .star ∉ piece) (ts : List Token)
    (text : List Char) : accepts (piece ++ ts) text = true ↔
      ∃ rest, afterStart? piece text = some rest ∧ accepts ts rest = true := by
  induction piece generalizing text with
  | nil => exact ⟨fun h => ⟨text, rfl, h⟩, fun ⟨_, he, h⟩ => Option.some.inj he ▸ h⟩
  | cons t piece ih =>
    obtain ⟨ht, hp⟩ := not_or.1 (mt List.mem_cons.2 hp)
    rw [List.cons_append, accepts_one (Ne.symm ht)]
    constructor
    · rintro ⟨c, cs, rfl, hc, h⟩
      obtain ⟨rest, hrest, h⟩ := (ih hp cs).1 h
      exact ⟨rest, (if_pos hc).trans hrest, h⟩
    · rintro ⟨rest, hrest, h⟩
      cases text with
      | nil => cases hrest
      | cons c cs =>
        by_cases hc : t.admits c = true
        · exact ⟨c, cs, rfl, hc, (ih hp cs).2 ⟨rest, (if_pos hc).symm.trans hrest, h⟩⟩
        · cases (if_neg hc).symm.trans hrest

/-- A later place leaves less of the text. -/
theorem drop_suffix {later text : List Char} (h : later <:+ text) (n : Nat) :
    later.drop n <:+ text.drop n := by
  obtain ⟨lead, rfl⟩ := h
  rw [List.drop_append]
  exact (List.drop_suffix_drop_left later (Nat.sub_le n _)).trans (List.suffix_append _ _)

theorem afterFirst?_eq_none {piece : List Token} {text : List Char}
    (h : afterFirst? piece text = none) {later : List Char} (hl : later <:+ text) :
    afterStart? piece later = none := by
  induction text with
  | nil =>
    obtain rfl := List.suffix_nil.1 hl
    exact h
  | cons c cs ih =>
    obtain ⟨hhere, hrest⟩ := Option.or_eq_none_iff.1 h
    rcases List.suffix_cons_iff.1 hl with rfl | hl
    · exact hhere
    · exact ih hrest hl

/-- The earliest place is a place, and every other one leaves less of the text. -/
theorem afterFirst?_eq_some {piece : List Token} {text rest : List Char}
    (h : afterFirst? piece text = some rest) :
    (∃ here, here <:+ text ∧ afterStart? piece here = some rest) ∧
      ∀ later less, later <:+ text → afterStart? piece later = some less → less <:+ rest := by
  -- a place is what is left of the text before the piece; an earlier one has all later ones in it
  have of_first {text : List Char} (h : afterStart? piece text = some rest) :
      ∀ later less, later <:+ text → afterStart? piece later = some less → less <:+ rest := by
    intro later less hl hless
    rw [(afterStart?_eq_drop hless).2, (afterStart?_eq_drop h).2]
    exact drop_suffix hl _
  induction text with
  | nil => exact ⟨⟨[], List.suffix_refl _, h⟩, of_first h⟩
  | cons c cs ih =>
    rcases Option.or_eq_some_iff.1 h with hhere | ⟨hhere, hrest⟩
    · exact ⟨⟨c :: cs, List.suffix_refl _, hhere⟩, of_first hhere⟩
    · obtain ⟨⟨here, hin, hplace⟩, hearliest⟩ := ih hrest
      refine ⟨⟨here, hin.trans (List.suffix_cons c cs), hplace⟩, fun later less hl hless => ?_⟩
      rcases List.suffix_cons_iff.1 hl with rfl | hl
      · rw [hhere] at hless
        cases hless
      · exact hearliest later less hl hless

/-! ## Pieces after stars -/

/-- A star takes what an earlier place leaves in addition. -/
theorem accepts_star_of_suffix {ts : List Token} {less rest : List Char} (hs : less <:+ rest)
    (h : accepts (.star :: ts) less = true) : accepts (.star :: ts) rest = true := by
  obtain ⟨lead, rfl⟩ := hs
  obtain ⟨run, tail, rfl, htail⟩ := (accepts_star_iff ts less).1 h
  exact (accepts_star_iff ts _).2 ⟨lead ++ run, tail, (List.append_assoc ..).symm, htail⟩

/-- After a star, a piece without stars may stand at any place. -/
theorem accepts_star_piece {piece : List Token} (hp : .star ∉ piece) (ts : List Token)
    (text : List Char) : accepts (.star :: (piece ++ ts)) text = true ↔
      ∃ here rest, here <:+ text ∧ afterStart? piece here = some rest ∧ accepts ts rest = true := by
  rw [accepts_star_iff]
  constructor
  · rintro ⟨run, here, rfl, h⟩
    obtain ⟨rest, hplace, hrest⟩ := (accepts_append_of_starless hp ts here).1 h
    exact ⟨here, rest, List.suffix_append _ _, hplace, hrest⟩
  · rintro ⟨here, rest, ⟨run, rfl⟩, hplace, hrest⟩
    exact ⟨run, here, rfl, (accepts_append_of_starless hp ts here).2 ⟨rest, hplace, hrest⟩⟩

theorem endsIn_eq_true {last : List Token} (hl : .star ∉ last) (text : List Char) :
    endsIn last text = true ↔ accepts (.star :: last) text = true := by
  have hpiece := accepts_star_piece hl [] text
  rw [List.append_nil] at hpiece
  simp only [hpiece, endsIn, decide_eq_true_eq, accepts_nil]
  constructor
  · exact fun h => ⟨_, [], List.drop_suffix _ _, h, rfl⟩
  · rintro ⟨here, _, hin, hplace, rfl⟩
    -- the whole of what stands there is taken, so the place is as long as the piece
    obtain ⟨hle, hdrop⟩ := afterStart?_eq_drop hplace
    have hlength : here.length = last.length :=
      Nat.le_antisymm (List.drop_eq_nil_iff.1 hdrop.symm) hle
    rw [← hlength, ← List.suffix_iff_eq_drop.1 hin]
    exact hplace

theorem places_eq_true {pieces : List (List Token)} (hp : ∀ piece ∈ pieces, .star ∉ piece)
    (text : List Char) : places pieces text = true ↔ accepts (starred pieces) text = true := by
  fun_induction places pieces text with
  | case1 text => rw [List.isEmpty_iff]; exact (accepts_nil text).symm
  | case2 last text =>
    rw [endsIn_eq_true (hp last List.mem_cons_self), starred_cons]
    exact (List.append_nil last).symm ▸ .rfl
  | case3 piece next pieces text hnone =>
    obtain ⟨hpiece, -⟩ := List.forall_mem_cons.1 hp
    rw [starred_cons, accepts_star_piece hpiece]
    refine ⟨fun h => (by cases h), fun ⟨here, rest, hin, hplace, _⟩ => ?_⟩
    rw [afterFirst?_eq_none hnone hin] at hplace
    cases hplace
  | case4 piece next pieces text rest hsome ih =>
    obtain ⟨hpiece, hpieces⟩ := List.forall_mem_cons.1 hp
    obtain ⟨⟨here, hin, hplace⟩, hearliest⟩ := afterFirst?_eq_some hsome
    rw [ih hpieces, starred_cons piece, accepts_star_piece hpiece]
    constructor
    · exact fun h => ⟨here, rest, hin, hplace, h⟩
    · rintro ⟨later, less, hlater, hless, h⟩
      exact accepts_star_of_suffix (hearliest later less hlater hless) h

/-! ## Top theorem -/

/-- **Going back is never needed.**  Putting every piece at its earliest place decides what the
table of all ends decides. -/
theorem settles_eq_accepts (ts : List Token) (text : List Char) :
    settles ts text = accepts ts text := by
  obtain ⟨hlead, hpieces⟩ := cut_starless ts
  rw [Bool.eq_iff_iff, ← cut_joins ts, accepts_append_of_starless hlead, cut_joins]
  unfold settles
  cases afterStart? (cut ts).1 text with
  | none => exact ⟨fun h => (by cases h), fun ⟨_, h, _⟩ => (by cases h)⟩
  | some rest =>
    simp only [Option.some.injEq, exists_eq_left']
    exact places_eq_true hpieces rest

end CloudAccess.Glob
