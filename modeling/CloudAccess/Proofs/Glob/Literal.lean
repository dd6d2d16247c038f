import CloudAccess.Glob

/-!
# Patterns that start literally

A character other than `*`, `?` and `[` stands for itself (`Glob.plain`).  A pattern that starts
with such characters matches the texts that start with them and go on as the rest of the pattern
says:

    fits (lead ++ rest) t ↔ t = lead ++ u for some u that rest matches         (Glob.fits_append)

`Glob.accepts` looks at a whole table of ends; `accepts_nil`, `accepts_one` and `accepts_star_iff`
say what comes of it for the first token.
-/

namespace CloudAccess.Glob

/-- A character that stands for itself in a pattern. -/
def plain (c : Char) : Bool := c ≠ '*' && c ≠ '?' && c ≠ '['

/-! ## Reading -/

theorem tokensFrom_plain {c : Char} (hc : plain c = true) (fuel : Nat) (cs : List Char) :
    tokensFrom (fuel + 1) (c :: cs) = .char c :: tokensFrom fuel cs := by
  simp only [plain, Bool.and_eq_true, decide_eq_true_eq] at hc
  obtain ⟨⟨hstar, hany⟩, hset⟩ := hc
  rw [tokensFrom, if_neg hstar, if_neg hany, if_neg hset]

theorem ofText_append {lead : List Char} (h : lead.all plain = true) (rest : List Char) :
    ofText (lead ++ rest) = lead.map .char ++ ofText rest := by
  unfold ofText
  induction lead with
  | nil => rfl
  | cons c cs ih =>
    rw [List.all_cons, Bool.and_eq_true] at h
    rw [List.cons_append, List.length_cons, tokensFrom_plain h.1, ih h.2]
    rfl

/-! ## Matching -/

theorem accepts_nil (text : List Char) : accepts [] text = true ↔ text = [] := by
  cases text with
  | nil => exact ⟨fun _ => rfl, fun _ => rfl⟩
  | cons c cs => exact ⟨fun h => (by cases h), fun h => (by cases h)⟩

/-- The answers for the ends of a text are among those for the ends of a longer one. -/
theorem table_tail (ts : List Token) (c : Char) (cs : List Char) :
    (table ts (c :: cs)).tail = table ts cs := by
  induction ts with
  | nil => rfl
  | cons t ts ih =>
    show row t cs (table ts (c :: cs)).tail = row t cs (table ts cs)
    rw [ih]

/-- A token other than a star takes one character. -/
theorem accepts_one {t : Token} (ht : t ≠ .star) (ts : List Token) (text : List Char) :
    accepts (t :: ts) text = true ↔
      ∃ c cs, text = c :: cs ∧ t.admits c = true ∧ accepts ts cs = true := by
  unfold accepts
  cases text with
  | nil =>
    have none : (table (t :: ts) []).headD false = false := by
      cases t with
      | star => exact absurd rfl ht
      | _ => rfl
    rw [none]
    exact ⟨fun h => (by cases h), fun ⟨_, _, h, _⟩ => (by cases h)⟩
  | cons d ds =>
    have head : (table (t :: ts) (d :: ds)).headD false =
        (t.admits d && (table ts (d :: ds)).tail.headD false) := by
      cases t with
      | star => exact absurd rfl ht
      | _ => rfl
    rw [head, table_tail, Bool.and_eq_true]
    constructor
    · rintro ⟨hd, h⟩
      exact ⟨d, ds, rfl, hd, h⟩
    · rintro ⟨_, _, he, hd, h⟩
      obtain ⟨rfl, rfl⟩ := List.cons.inj he
      exact ⟨hd, h⟩

/-- A star takes any run of characters. -/
theorem accepts_star_iff (ts : List Token) (text : List Char) :
    accepts (.star :: ts) text = true ↔
      ∃ run rest, text = run ++ rest ∧ accepts ts rest = true := by
  induction text with
  | nil =>
    constructor
    · exact fun h => ⟨[], [], rfl, h⟩
    · rintro ⟨run, rest, he, h⟩
      obtain ⟨-, rfl⟩ := List.append_eq_nil_iff.1 he.symm
      exact h
  | cons c cs ih =>
    have head : accepts (.star :: ts) (c :: cs) =
        (accepts ts (c :: cs) || accepts (.star :: ts) cs) := by
      unfold accepts
      rw [← table_tail (.star :: ts) c cs]
      rfl
    rw [head, Bool.or_eq_true, ih]
    constructor
    · rintro (h | ⟨run, rest, rfl, h⟩)
      · exact ⟨[], c :: cs, rfl, h⟩
      · exact ⟨c :: run, rest, rfl, h⟩
    · rintro ⟨run, rest, he, h⟩
      cases run with
      | nil => exact .inl (he ▸ h)
      | cons d run =>
        obtain ⟨rfl, rfl⟩ := List.cons.inj he
        exact .inr ⟨run, rest, rfl, h⟩

/-- A single star matches every text. -/
theorem accepts_star (text : List Char) : accepts [.star] text = true :=
  (accepts_star_iff [] text).2 ⟨text, [], (List.append_nil text).symm, rfl⟩

theorem accepts_char (c : Char) (ts : List Token) (text : List Char) :
    accepts (.char c :: ts) text = true ↔ ∃ cs, text = c :: cs ∧ accepts ts cs = true := by
  have hone : Token.char c ≠ .star := fun h => (by cases h)
  rw [accepts_one hone]
  simp only [Token.admits, decide_eq_true_eq]
  constructor
  · rintro ⟨_, cs, rfl, rfl, h⟩
    exact ⟨cs, rfl, h⟩
  · rintro ⟨cs, rfl, h⟩
    exact ⟨c, cs, rfl, rfl, h⟩

theorem accepts_literal (lead : List Char) (ts : List Token) (text : List Char) :
    accepts (lead.map .char ++ ts) text = true ↔
      ∃ rest, text = lead ++ rest ∧ accepts ts rest = true := by
  induction lead generalizing text with
  | nil => exact ⟨fun h => ⟨text, rfl, h⟩, fun ⟨_, ht, h⟩ => ht ▸ h⟩
  | cons c cs ih =>
    rw [List.map_cons, List.cons_append, accepts_char]
    constructor
    · rintro ⟨text', rfl, h⟩
      obtain ⟨rest, rfl, hr⟩ := (ih text').1 h
      exact ⟨rest, rfl, hr⟩
    · rintro ⟨rest, rfl, hr⟩
      exact ⟨cs ++ rest, rfl, (ih _).2 ⟨rest, rfl, hr⟩⟩

/-- A pattern that starts literally matches what starts so and goes on as it does. -/
theorem fits_append {lead : String} (h : lead.toList.all plain = true) (rest text : String) :
    fits (lead ++ rest) text = true ↔
      ∃ u, text.toList = lead.toList ++ u ∧ accepts (ofText rest.toList) u = true := by
  unfold fits
  rw [String.toList_append, ofText_append h, accepts_literal]

/-- A pattern of plain characters matches itself only. -/
theorem fits_plain {pattern : String} (h : pattern.toList.all plain = true) (text : String) :
    fits pattern text = true ↔ text = pattern := by
  have hp := fits_append h "" text
  rw [String.append_empty] at hp
  rw [hp]
  constructor
  · rintro ⟨u, ht, hu⟩
    obtain rfl := (accepts_nil u).1 hu
    rw [List.append_nil] at ht
    exact String.toList_inj.1 ht
  · rintro rfl
    exact ⟨[], (List.append_nil _).symm, rfl⟩

end CloudAccess.Glob
