import CloudAccess.Proofs.Glob.Earliest

/-!
# Patterns put together

A pattern in which every bracket that opens a set is closed (`Glob.Closed`) may be put before any
other pattern:

    Closed p → (fits (p ++ q) v ↔ v = a ++ b for some a that p matches and b that q matches)
                                                                              (Glob.fits_composes)

The tokens of such a pattern stay what they are when more follows, and tokens match a text if their
parts match parts of it.  A bracket that is left open stands for itself, unless what follows closes
it.
-/

namespace CloudAccess.Glob

/-! ## Definitions -/

/-- Where a reader of a pattern stands: outside of sets, just after an opening bracket, after the
`!` that follows one, or further on in a set. -/
inductive Stand where
  | outside
  | opened
  | negated
  | inside
deriving DecidableEq

/-- Where a reader stands after a character.  A closing bracket that comes first in a set, or first
after its `!`, is a member. -/
def Stand.next : Stand → Char → Stand
  | .outside, c => if c = '[' then .opened else .outside
  | .opened, c => if c = '!' then .negated else .inside
  | .negated, _ => .inside
  | .inside, c => if c = ']' then .outside else .inside

/-- A reader who stands there finds every set closed in the text that follows. -/
def Stand.Closes (s : Stand) (text : List Char) : Prop := text.foldl Stand.next s = .outside

/-- Every bracket that opens a set is closed. -/
def Closed (pattern : String) : Prop := Stand.outside.Closes pattern.toList

instance (pattern : String) : Decidable (Closed pattern) :=
  inferInstanceAs (Decidable (_ = Stand.outside))

/-! ## Sets -/

/-- The body of a set and what follows its closing bracket, given the start of the body. -/
def bodyFrom? (lead rest : List Char) : Option (List Char × List Char) :=
  match rest.dropWhile (· ≠ ']') with
  | [] => none
  | _ :: after => some (lead ++ rest.takeWhile (· ≠ ']'), after)

theorem bodyFrom?_close (lead rest : List Char) :
    bodyFrom? lead (']' :: rest) = some (lead, rest) :=
  congrArg (fun body => some (body, rest)) (List.append_nil lead)

theorem bodyFrom?_member {c : Char} (hc : c ≠ ']') (lead rest : List Char) :
    bodyFrom? lead (c :: rest) = bodyFrom? (lead ++ [c]) rest := by
  have hpos : decide (c ≠ ']') = true := decide_eq_true hc
  unfold bodyFrom?
  rw [List.dropWhile_cons_of_pos (by exact hpos), List.takeWhile_cons_of_pos (by exact hpos),
    List.append_cons]

/-- The body of a set goes up to the first closing bracket. -/
theorem bodyFrom?_eq_some {lead rest body after : List Char} :
    bodyFrom? lead rest = some (body, after) ↔
      ∃ members, ']' ∉ members ∧ rest = members ++ ']' :: after ∧ body = lead ++ members := by
  induction rest generalizing lead with
  | nil => exact ⟨fun h => (by cases h), fun ⟨members, _, h, _⟩ => (by cases members <;> cases h)⟩
  | cons c rest ih =>
    by_cases hc : c = ']'
    · subst hc
      rw [bodyFrom?_close]
      constructor
      · rintro ⟨⟩
        exact ⟨[], List.not_mem_nil, rfl, (List.append_nil _).symm⟩
      · rintro ⟨members, hm, h, rfl⟩
        cases members with
        | nil =>
          obtain ⟨-, rfl⟩ := List.cons.inj h
          rw [List.append_nil]
        | cons d members => exact absurd (List.cons.inj h).1 (List.ne_of_not_mem_cons hm)
    · rw [bodyFrom?_member hc, ih]
      constructor
      · rintro ⟨members, hm, rfl, rfl⟩
        exact ⟨c :: members, List.not_mem_cons_of_ne_of_not_mem (Ne.symm hc) hm, rfl,
          (List.append_cons ..).symm⟩
      · rintro ⟨members, hm, h, rfl⟩
        cases members with
        | nil => exact absurd (List.cons.inj h).1 hc
        | cons d members =>
          obtain ⟨rfl, rfl⟩ := List.cons.inj h
          exact ⟨members, List.not_mem_of_not_mem_cons hm, rfl, List.append_cons ..⟩

/-- What stands before the members of a set, a `!` and then a closing bracket, and what follows. -/
def leadOf : List Char → List Char × List Char
  | '!' :: ']' :: rest => (['!', ']'], rest)
  | '!' :: rest => (['!'], rest)
  | ']' :: rest => ([']'], rest)
  | rest => ([], rest)

theorem body?_eq (cs : List Char) : body? cs = bodyFrom? (leadOf cs).1 (leadOf cs).2 := rfl

theorem leadOf_joins (cs : List Char) : (leadOf cs).1 ++ (leadOf cs).2 = cs := by
  fun_cases leadOf cs <;> rfl

/-- More text changes nothing, once a member stands there. -/
theorem leadOf_append {cs : List Char} (h : (leadOf cs).2 ≠ []) (more : List Char) :
    leadOf (cs ++ more) = ((leadOf cs).1, (leadOf cs).2 ++ more) := by
  fun_cases leadOf cs with
  | case1 rest => rfl
  | case2 rest hclose =>
    rw [leadOf.eq_2 rest hclose] at h
    obtain ⟨d, ds, rfl⟩ := List.exists_cons_of_ne_nil h
    exact leadOf.eq_2 (d :: ds ++ more) fun _ hr => hclose ds ((List.cons.inj hr).1 ▸ rfl)
  | case3 rest => rfl
  | case4 cs hpair hnegated hclose =>
    rw [leadOf.eq_4 cs hpair hnegated hclose] at h
    obtain ⟨d, ds, rfl⟩ := List.exists_cons_of_ne_nil h
    exact leadOf.eq_4 (d :: ds ++ more) (fun _ hr => hnegated ds ((List.cons.inj hr).1 ▸ rfl))
      (fun _ hr => hnegated ds ((List.cons.inj hr).1 ▸ rfl))
      (fun _ hr => hclose ds ((List.cons.inj hr).1 ▸ rfl))

theorem next_outside {c : Char} (hc : c ≠ '[') : Stand.next .outside c = .outside := if_neg hc

theorem next_inside {c : Char} (hc : c ≠ ']') : Stand.next .inside c = .inside := if_neg hc

theorem next_opened {c : Char} (hc : c ≠ '!') : Stand.next .opened c = .inside := if_neg hc

/-- A set that is closed is closed after what stands before its members. -/
theorem closes_leadOf {cs : List Char} (h : Stand.opened.Closes cs) :
    Stand.inside.Closes (leadOf cs).2 := by
  fun_cases leadOf cs with
  | case1 rest => exact h
  | case2 rest hclose =>
    cases rest with
    | nil => cases h
    | cons d ds =>
      show (Stand.next .inside d).Closes ds
      rw [next_inside fun hd => hclose ds (hd ▸ rfl)]
      exact h
  | case3 rest => exact h
  | case4 cs hpair hnegated hclose =>
    cases cs with
    | nil => cases h
    | cons d ds =>
      replace h : (Stand.next .opened d).Closes ds := h
      show (Stand.next .inside d).Closes ds
      rw [next_inside fun hd => hclose ds (hd ▸ rfl)]
      rwa [next_opened fun hd => hnegated ds (hd ▸ rfl)] at h

theorem bodyFrom?_closed (lead : List Char) {rest : List Char} (h : Stand.inside.Closes rest) :
    ∃ body after, bodyFrom? lead rest = some (body, after) ∧ Stand.outside.Closes after := by
  induction rest generalizing lead with
  | nil => cases h
  | cons c rest ih =>
    by_cases hc : c = ']'
    · subst hc
      exact ⟨lead, rest, bodyFrom?_close lead rest, h⟩
    · replace h : (Stand.next .inside c).Closes rest := h
      rw [next_inside hc] at h
      rw [bodyFrom?_member hc]
      exact ih _ h

/-- A set that is closed has a body, and what follows it is read as before. -/
theorem body?_closed {cs : List Char} (h : Stand.opened.Closes cs) :
    ∃ body after, body? cs = some (body, after) ∧ Stand.outside.Closes after :=
  bodyFrom?_closed _ (closes_leadOf h)

theorem body?_append {cs body after : List Char} (h : body? cs = some (body, after))
    (more : List Char) : body? (cs ++ more) = some (body, after ++ more) := by
  rw [body?_eq] at h ⊢
  obtain ⟨members, hm, hrest, hbody⟩ := bodyFrom?_eq_some.1 h
  have hne : (leadOf cs).2 ≠ [] := by
    rw [hrest]
    exact List.append_ne_nil_of_right_ne_nil _ (List.cons_ne_nil _ _)
  rw [leadOf_append hne]
  refine bodyFrom?_eq_some.2 ⟨members, hm, ?_, hbody⟩
  rw [hrest, List.append_assoc, List.cons_append]

theorem body?_joins {cs body after : List Char} (h : body? cs = some (body, after)) :
    cs = body ++ ']' :: after := by
  obtain ⟨members, -, hrest, rfl⟩ := bodyFrom?_eq_some.1 (body?_eq cs ▸ h)
  rw [List.append_assoc, ← hrest, leadOf_joins]

theorem body?_length {cs body after : List Char} (h : body? cs = some (body, after)) :
    after.length < cs.length := by
  rw [body?_joins h, List.length_append, List.length_cons]
  omega

/-! ## Reading -/

/-- Fuel beyond the length of the text makes no difference. -/
theorem tokensFrom_congr {m n : Nat} {cs : List Char} (hm : cs.length ≤ m) (hn : cs.length ≤ n) :
    tokensFrom m cs = tokensFrom n cs := by
  induction m generalizing n cs with
  | zero =>
    obtain rfl := List.length_eq_zero_iff.1 (Nat.le_zero.1 hm)
    cases n <;> rfl
  | succ m ih =>
    cases cs with
    | nil => cases n <;> rfl
    | cons c cs =>
      obtain ⟨n, rfl⟩ : ∃ k, n = k + 1 := Nat.exists_eq_add_of_le' (Nat.le_trans (by simp) hn)
      have hcs : tokensFrom m cs = tokensFrom n cs :=
        ih (Nat.le_of_succ_le_succ hm) (Nat.le_of_succ_le_succ hn)
      rw [tokensFrom, tokensFrom, hcs]
      cases hb : body? cs with
      | none => rfl
      | some found =>
        obtain ⟨body, after⟩ := found
        have hlt := body?_length hb
        rw [List.length_cons] at hm hn
        have hafter : tokensFrom m after = tokensFrom n after := ih (by omega) (by omega)
        simp only [hafter]

/-- A pattern is read from its first character on. -/
theorem ofText_cons (c : Char) (cs : List Char) : ofText (c :: cs) =
    if c = '*' then .star :: ofText cs
    else if c = '?' then .any :: ofText cs
    else if c = '[' then
      match body? cs with
      | none => .char '[' :: ofText cs
      | some (body, after) => setOf body :: ofText after
    else .char c :: ofText cs := by
  rw [ofText, List.length_cons, tokensFrom]
  cases hb : body? cs with
  | none => rfl
  | some found =>
    obtain ⟨body, after⟩ := found
    have hafter : tokensFrom cs.length after = ofText after :=
      tokensFrom_congr (Nat.le_of_lt (body?_length hb)) (Nat.le_refl _)
    simp only [hafter]
    rfl

/-- What is read of a pattern stays the same when more follows, if each of its sets is closed. -/
theorem ofText_append_of_closed {cs : List Char} (h : Stand.outside.Closes cs) (more : List Char) :
    ofText (cs ++ more) = ofText cs ++ ofText more := by
  match cs with
  | [] => rfl
  | c :: cs =>
    rw [List.cons_append, ofText_cons, ofText_cons]
    by_cases hset : c = '['
    · subst hset
      obtain ⟨body, after, hb, hafter⟩ := body?_closed h
      have hlt : after.length < cs.length := body?_length hb
      rw [body?_append hb, hb]
      show setOf body :: ofText (after ++ more) = setOf body :: (ofText after ++ ofText more)
      rw [ofText_append_of_closed hafter]
    · have hcs : Stand.outside.Closes cs := by
        replace h : (Stand.next .outside c).Closes cs := h
        rwa [next_outside hset] at h
      rw [if_neg hset, if_neg hset, ofText_append_of_closed hcs]
      split
      · rfl
      split <;> rfl
termination_by cs.length

/-! ## Matching -/

/-- Tokens in a row match a text if they match parts of it in a row. -/
theorem accepts_append (ts us : List Token) (text : List Char) :
    accepts (ts ++ us) text = true ↔
      ∃ a b, text = a ++ b ∧ accepts ts a = true ∧ accepts us b = true := by
  induction ts generalizing text with
  | nil =>
    simp only [List.nil_append, accepts_nil]
    exact ⟨fun h => ⟨[], text, rfl, rfl, h⟩, fun ⟨_, _, he, ha, h⟩ => by rw [he, ha]; exact h⟩
  | cons t ts ih =>
    rw [List.cons_append]
    by_cases ht : t = .star
    · subst ht
      simp only [accepts_star_iff, ih]
      constructor
      · rintro ⟨run, _, rfl, a, b, rfl, ha, hb⟩
        exact ⟨run ++ a, b, (List.append_assoc ..).symm, ⟨run, a, rfl, ha⟩, hb⟩
      · rintro ⟨_, b, rfl, ⟨run, a, rfl, ha⟩, hb⟩
        exact ⟨run, a ++ b, List.append_assoc .., a, b, rfl, ha, hb⟩
    · simp only [accepts_one ht, ih]
      constructor
      · rintro ⟨c, _, rfl, hc, a, b, rfl, ha, hb⟩
        exact ⟨c :: a, b, rfl, ⟨c, a, rfl, hc, ha⟩, hb⟩
      · rintro ⟨_, b, rfl, ⟨c, a, rfl, hc, ha⟩, hb⟩
        exact ⟨c, a ++ b, rfl, hc, a, b, rfl, ha, hb⟩

/-! ## Top theorem -/

/-- **Patterns compose.**  A pattern whose sets are closed, followed by another one, matches what is
made of a match of each; a pattern without pattern characters matches itself alone.  Both hold of
the search that puts each piece between two stars at its earliest place, which decides the same. -/
theorem fits_composes (pattern text : String) :
    (Closed pattern → ∀ more : String, fits (pattern ++ more) text = true ↔
      ∃ a b, text = a ++ b ∧ fits pattern a = true ∧ fits more b = true) ∧
    (pattern.toList.all plain = true → (fits pattern text = true ↔ text = pattern)) ∧
    fits pattern text = settles (ofText pattern.toList) text.toList := by
  refine ⟨fun hclosed more => ?_, fun hplain => fits_plain hplain text,
    (settles_eq_accepts _ _).symm⟩
  unfold fits
  rw [String.toList_append, ofText_append_of_closed hclosed, accepts_append]
  constructor
  · rintro ⟨a, b, he, ha, hb⟩
    refine ⟨.ofList a, .ofList b, ?_, ?_, ?_⟩
    · rw [← String.toList_inj, String.toList_append, String.toList_ofList, String.toList_ofList, he]
    · rwa [String.toList_ofList]
    · rwa [String.toList_ofList]
  · rintro ⟨a, b, rfl, ha, hb⟩
    exact ⟨a.toList, b.toList, String.toList_append, ha, hb⟩

/-- A bracket that is left open stands for itself, unless what follows closes it: then there is a
set where neither of the two patterns has one. -/
example : ¬ Closed "[a" ∧ fits ("[a" ++ "]") "a" = true ∧
    fits "]" "a" = false ∧ fits "]" "" = false := by
  decide

/-- A pattern for a folder, whose set has a bracket and a hyphen as members, and one for the files
of May match a file between them; the name of the file is a pattern for that file. -/
theorem fits_composes_logFile :
    let folder := "logs[]/-]*"
    let file := "may-[0-9]?.[!z]*"
    let name := "logs/web/may-17.txt"
    Closed folder ∧ fits (folder ++ file) name = true ∧
      (∃ a b, name = a ++ b ∧ fits folder a = true ∧ fits file b = true) ∧
      name.toList.all plain = true ∧ fits name name = true := by
  intro folder file name
  have hclosed : Closed folder := by decide
  have hfits : fits (folder ++ file) name = true := by decide
  have hplain : name.toList.all plain = true := by decide
  exact ⟨hclosed, hfits, ((fits_composes folder name).1 hclosed file).1 hfits,
    hplain, ((fits_composes name name).2.1 hplain).2 rfl⟩

end CloudAccess.Glob
