import CloudAccess.Json.Reader
import CloudAccess.Json.Writer
import Mathlib

/-!
# Strings in JSON text

What is written for a character is read as that character, whatever follows (`stringFrom_char`):
as it stands, as a letter behind a backslash, as four hexadecimal digits or, for a character
beyond those, as the two halves of a pair.  So a written string is read back:

    stringFrom start (s.toList.flatMap writtenChar ++ '"' :: rest) = .ok (s.toList, rest)
                                                                            (stringFrom_written)
-/

namespace CloudAccess

/-! ## Hexadecimal digits -/

namespace Text

theorem hexValue?_digitChar : ∀ n < 16, hexValue? (Nat.digitChar n) = some n := by decide

/-- Below the last unit there are four digits. -/
theorem hexDigits_four {n : Nat} (hn : n < 0x10000) :
    hexDigits 4 n = [Nat.digitChar (n / 4096), Nat.digitChar (n / 256 % 16),
      Nat.digitChar (n / 16 % 16), Nat.digitChar (n % 16)] := by
  have hstep (k : Nat) : Nat.toDigits 16 k =
      if k < 16 then [Nat.digitChar k] else Nat.toDigits 16 (k / 16) ++ [Nat.digitChar (k % 16)] :=
    Nat.toDigits_eq_if (by decide)
  have hzero {k : Nat} (hk : k = 0) : Nat.digitChar k = '0' := by rw [hk]; rfl
  unfold hexDigits
  rw [hstep n, hstep (n / 16), hstep (n / 16 / 16), hstep (n / 16 / 16 / 16)]
  simp only [Nat.div_div_eq_div_mul, Nat.reduceMul]
  split_ifs with h1 h2 h3 h4
  · simp [hzero (show n / 4096 = 0 by omega), hzero (show n / 256 % 16 = 0 by omega),
      hzero (show n / 16 % 16 = 0 by omega), Nat.mod_eq_of_lt h1]
  · simp [hzero (show n / 4096 = 0 by omega), hzero (show n / 256 % 16 = 0 by omega),
      Nat.mod_eq_of_lt h2]
  · simp [hzero (show n / 4096 = 0 by omega), Nat.mod_eq_of_lt h3]
  · simp
  · omega

end Text

namespace Json

theorem hexFour?_hexDigits {n : Nat} (hn : n < 0x10000) :
    ∃ a b c d, Text.hexDigits 4 n = [a, b, c, d] ∧ hexFour? a b c d = some n := by
  refine ⟨_, _, _, _, Text.hexDigits_four hn, ?_⟩
  unfold hexFour?
  rw [Text.hexValue?_digitChar _ (by omega), Text.hexValue?_digitChar _ (by omega),
    Text.hexValue?_digitChar _ (by omega), Text.hexValue?_digitChar _ (by omega)]
  dsimp only
  congr 1
  omega

/-! ## Steps -/

/-- What is read at the head of a string, by how it is written: the quote that ends it, a character
as it stands, a letter behind a backslash, a unit that is no half of a pair, or two halves. -/
structure StringSteps (start : List Char) : Prop where
  quote : ∀ rest, stringFrom start ('"' :: rest) = .ok ([], rest)
  plain : ∀ {c x rest}, c ≠ '"' → c ≠ '\\' → 32 ≤ c.toNat →
    stringFrom start (c :: x :: rest) = (do
      let (s, out) ← stringFrom start (x :: rest)
      .ok (c :: s, out))
  short : ∀ {e c x rest}, e ≠ 'u' → shortEscape? e = some c →
    stringFrom start ('\\' :: e :: x :: rest) = (do
      let (s, out) ← stringFrom start (x :: rest)
      .ok (c :: s, out))
  unit : ∀ {n x rest}, n < 0xD800 ∨ 0xDFFF < n ∧ n < 0x10000 →
    stringFrom start (escapedUnit n ++ x :: rest) = (do
      let (s, out) ← stringFrom start (x :: rest)
      .ok (Char.ofNat n :: s, out))
  pair : ∀ {high low x rest}, 0xD800 ≤ high ∧ high < 0xDC00 → 0xDC00 ≤ low ∧ low < 0xE000 →
    stringFrom start (escapedUnit high ++ escapedUnit low ++ x :: rest) = (do
      let (s, out) ← stringFrom start (x :: rest)
      .ok (joinHalves high low :: s, out))

-- The equations of `stringFrom` take long to derive, so all steps are proved at once.
theorem stringSteps (start : List Char) : StringSteps start where
  quote rest := by rw [stringFrom]
  plain hquote hslash hc := by
    rw [stringFrom]
    · rw [if_neg (not_lt.2 hc)]
    all_goals simp [hquote, hslash]
  short he h := by
    rw [stringFrom]
    · rw [h]
    all_goals simp [he]
  unit {n x rest} hn := by
    obtain ⟨a, b, c, d, hdigits, hvalue⟩ := hexFour?_hexDigits (n := n) (by omega)
    have hhigh : isHighSurrogate n = false := by
      simp [isHighSurrogate]
      omega
    have hunit : unitChar n = Char.ofNat n := by
      simp [unitChar, isHighSurrogate, isLowSurrogate]
      omega
    rw [escapedUnit, hdigits]
    simp only [List.cons_append, List.nil_append]
    rw [stringFrom, hvalue]
    dsimp only
    split
    · rw [hhigh, hunit]
      rfl
    · rw [hunit]
  pair {high low x rest} hhigh hlow := by
    obtain ⟨a, b, c, d, hdigits, hvalue⟩ := hexFour?_hexDigits (n := high) (by omega)
    obtain ⟨e, f, g, h, hdigits', hvalue'⟩ := hexFour?_hexDigits (n := low) (by omega)
    have hhigh' : isHighSurrogate high = true := by simpa [isHighSurrogate] using hhigh
    have hlow' : isLowSurrogate low = true := by simpa [isLowSurrogate] using hlow
    rw [escapedUnit, escapedUnit, hdigits, hdigits']
    simp only [List.cons_append, List.nil_append]
    rw [stringFrom, hvalue]
    simp only [hhigh', hvalue', hlow', if_true]

/-! ## Strings -/

variable {start : List Char} {x : Char} {rest : List Char}

theorem stringFrom_char (c : Char) :
    stringFrom start (writtenChar c ++ x :: rest) = (do
      let (s, out) ← stringFrom start (x :: rest)
      .ok (c :: s, out)) := by
  have hvalid : c.toNat < 0xD800 ∨ 0xDFFF < c.toNat ∧ c.toNat < 0x110000 := c.valid
  have hchar {n : Nat} (hn : c.toNat = n) : Char.ofNat n = c := by rw [← hn, Char.ofNat_toNat]
  unfold writtenChar
  split_ifs with h1 h2 h3 h4 h5 h6 h7 h8 h9
  · subst h1; exact (stringSteps start).short (by decide) rfl
  · subst h2; exact (stringSteps start).short (by decide) rfl
  · subst h3; exact (stringSteps start).short (by decide) rfl
  · subst h4; exact (stringSteps start).short (by decide) rfl
  · subst h5; exact (stringSteps start).short (by decide) rfl
  · rw [← hchar h6]; exact (stringSteps start).short (by decide) rfl
  · rw [← hchar h7]; exact (stringSteps start).short (by decide) rfl
  · exact (stringSteps start).plain h1 h2 h8.1
  · rw [(stringSteps start).unit (by omega), Char.ofNat_toNat]
  · dsimp only
    rw [(stringSteps start).pair (by omega) (by omega)]
    have hjoined : joinHalves (0xD800 + (c.toNat - 0x10000) / 0x400)
        (0xDC00 + (c.toNat - 0x10000) % 0x400) = c := by
      unfold joinHalves
      apply hchar
      omega
    rw [hjoined]

theorem stringFrom_written (cs : List Char) :
    stringFrom start (cs.flatMap writtenChar ++ '"' :: rest) = .ok (cs, rest) := by
  induction cs with
  | nil => exact (stringSteps start).quote rest
  | cons c cs ih =>
    obtain ⟨x, tail, htail⟩ : ∃ x tail, cs.flatMap writtenChar ++ '"' :: rest = x :: tail :=
      List.exists_cons_of_ne_nil (List.append_ne_nil_of_right_ne_nil _ (List.cons_ne_nil _ _))
    rw [List.flatMap_cons, List.append_assoc, htail, stringFrom_char, ← htail, ih]
    rfl

end Json
end CloudAccess
