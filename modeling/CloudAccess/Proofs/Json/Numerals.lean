import CloudAccess.Json.Reader
import CloudAccess.Json.Writer
import CloudAccess.Proofs.Number.Shortest
import Mathlib

/-!
# Numbers in JSON text

A numeral has digits before the point and may have some after it and an exponent
(`Json.Numeral`).  It is read part by part, up to a character that none of the parts can go on
with (`unsigned_text`).  What is written for a number is a sign and such a numeral, and the numeral
is read as the number:

    unsigned negative start (natDigits n ++ rest) = .ok (.int ± n, rest)      (unsigned_natDigits)
    the text of x = sign ++ k.text,  k.reading negative rest = .ok (.float x, rest)
                                                                              (exists_numeral)
-/

namespace CloudAccess

/-! ## Runs of digits -/

theorem natOfDigits_eq (cs : List Char) : natOfDigits cs = Nat.ofDigitChars 10 cs 0 :=
  Nat.ofDigitChars_eq_foldl.symm

theorem natOfDigits_append (cs ds : List Char) :
    natOfDigits (cs ++ ds) = 10 ^ ds.length * natOfDigits cs + natOfDigits ds := by
  simp only [natOfDigits_eq]
  rw [Nat.ofDigitChars_append, Nat.ofDigitChars_eq_ofDigitChars_zero]

theorem natOfDigits_zeros (n : Nat) : natOfDigits (List.replicate n '0') = 0 := by
  rw [natOfDigits_eq, Nat.ofDigitChars_replicate_zero, Nat.mul_zero]

theorem natOfDigits_natDigits (n : Nat) : natOfDigits (natDigits n) = n := by
  rw [natOfDigits_eq]
  exact Nat.ofDigitChars_ten_toDigits

theorem natDigits_ne_nil (n : Nat) : natDigits n ≠ [] := Nat.toDigits_ne_nil

/-- The numeral of a natural has no leading zero. -/
theorem head?_natDigits {n : Nat} (hn : 0 < n) : (natDigits n).head? ≠ some '0' := by
  unfold natDigits
  induction n using Nat.strongRecOn with
  | ind n ih =>
    rw [Nat.toDigits_eq_if (by decide)]
    split
    · simpa using hn.ne'
    · rw [List.head?_append_of_ne_nil _ Nat.toDigits_ne_nil]
      exact ih (n / 10) (by omega) (by omega)

namespace Json

/-- All are digits. -/
def Digital (cs : List Char) : Prop := ∀ c ∈ cs, isDigit c = true

theorem isDigit_eq (c : Char) : isDigit c = c.isDigit := rfl

theorem digital_natDigits (n : Nat) : Digital (natDigits n) := by
  intro c hc
  rw [isDigit_eq]
  exact Nat.isDigit_of_mem_toDigits (by decide) (by decide) hc

theorem Digital.append {cs ds : List Char} (hcs : Digital cs) (hds : Digital ds) :
    Digital (cs ++ ds) := fun c hc => (List.mem_append.1 hc).elim (hcs c) (hds c)

theorem digital_zeros (n : Nat) : Digital (List.replicate n '0') := by
  intro c hc
  rw [List.eq_of_mem_replicate hc]
  rfl

theorem natOfDigits_lt {cs : List Char} (h : Digital cs) : natOfDigits cs < 10 ^ cs.length := by
  induction cs using List.reverseRecOn with
  | nil => exact one_pos
  | append_singleton cs c ih =>
    have hcs := ih fun d hd => h d (List.mem_append_left _ hd)
    have hc : isDigit c = true := h c (List.mem_append_right _ List.mem_cons_self)
    have hdigit : natOfDigits [c] < 10 := by
      simp only [isDigit, Bool.and_eq_true, decide_eq_true_iff] at hc
      have hle : c.toNat ≤ '9'.toNat := hc.2
      show 10 * 0 + (c.toNat - '0'.toNat) < 10
      simp only [Char.reduceToNat] at hle ⊢
      omega
    rw [natOfDigits_append, List.length_append, List.length_singleton, Nat.pow_succ]
    omega

/-- Does not start with a digit. -/
def NoDigit (rest : List Char) : Prop := ∀ c ∈ rest.head?, isDigit c = false

/-- Starts with nothing that a numeral goes on with. -/
structure EndsNumeral (rest : List Char) : Prop where
  digit : NoDigit rest
  point : rest.head? ≠ some '.'
  exponent : ∀ c ∈ rest.head?, c ≠ 'e' ∧ c ≠ 'E'

theorem takeWhile_digits {ds rest : List Char} (hds : Digital ds) (hrest : NoDigit rest) :
    (ds ++ rest).takeWhile isDigit = ds := by
  rw [List.takeWhile_append_of_pos hds]
  cases rest with
  | nil => exact List.append_nil ds
  | cons c rest => simp [hrest c rfl]

theorem dropWhile_digits {ds rest : List Char} (hds : Digital ds) (hrest : NoDigit rest) :
    (ds ++ rest).dropWhile isDigit = rest := by
  rw [List.dropWhile_append_of_pos hds]
  cases rest with
  | nil => rfl
  | cons c rest => simp [hrest c rfl]

/-! ## The parts of a numeral -/

/-- A numeral without its sign. -/
structure Numeral where
  whole : List Char
  fraction : List Char
  exponent : Option Int

namespace Numeral

def fractionText (k : Numeral) : List Char := if k.fraction = [] then [] else '.' :: k.fraction

def exponentText (k : Numeral) : List Char :=
  match k.exponent with
  | none => []
  | some e => ['e', if e < 0 then '-' else '+'] ++ DecimalStyle.padLeft (natDigits e.natAbs) 2

def text (k : Numeral) : List Char := k.whole ++ k.fractionText ++ k.exponentText

/-- A zero stands before the point only alone. -/
structure Sound (k : Numeral) : Prop where
  whole_ne_nil : k.whole ≠ []
  whole : Digital k.whole
  zero : k.whole.head? = some '0' → k.whole = ['0']
  fraction : Digital k.fraction

end Numeral

variable {k : Numeral} {rest : List Char}

theorem wholePart?_text (hk : k.Sound) (hrest : NoDigit rest) :
    wholePart? (k.whole ++ rest) = some (k.whole, rest) := by
  obtain ⟨hne, hwhole, hzero, -⟩ := hk
  have htake := takeWhile_digits hwhole hrest
  have hdrop := dropWhile_digits hwhole hrest
  obtain ⟨c, cs, hcs⟩ := List.exists_cons_of_ne_nil hne
  rw [hcs] at hzero htake hdrop ⊢
  unfold wholePart?
  split
  · next heq =>
    obtain ⟨rfl, rfl⟩ := List.cons.inj heq
    rw [(List.cons.inj (hzero rfl)).2]
    rfl
  · rw [htake, hdrop]

theorem fractionPart_text (hk : k.Sound) (hrest : NoDigit rest) (hpoint : rest.head? ≠ some '.') :
    fractionPart (k.fractionText ++ rest) = (k.fraction, rest) := by
  unfold Numeral.fractionText
  split
  · next hnil =>
    rw [hnil, List.nil_append]
    unfold fractionPart
    split
    · exact absurd rfl hpoint
    · rfl
  · next hne =>
    rw [List.cons_append, fractionPart, takeWhile_digits hk.fraction hrest,
      dropWhile_digits hk.fraction hrest]
    split
    · next hnil => exact absurd hnil hne
    · rfl

theorem exponentPart_text (hrest : EndsNumeral rest) :
    exponentPart (k.exponentText ++ rest) = (k.exponent, rest) := by
  unfold Numeral.exponentText
  cases k.exponent with
  | none =>
    rw [List.nil_append]
    unfold exponentPart
    split
    · next c rest =>
      rw [if_neg]
      simpa using hrest.exponent c rfl
    · rfl
  | some e =>
    generalize hds : DecimalStyle.padLeft (natDigits e.natAbs) 2 = ds
    have hdigital : Digital ds := hds ▸ (digital_zeros _).append (digital_natDigits _)
    have hvalue : natOfDigits ds = e.natAbs := by
      rw [← hds, DecimalStyle.padLeft, natOfDigits_append, natOfDigits_zeros,
        natOfDigits_natDigits, Nat.mul_zero, Nat.zero_add]
    have hne : ds ≠ [] := by
      rw [← hds]
      exact List.append_ne_nil_of_right_ne_nil _ (natDigits_ne_nil _)
    have htake := takeWhile_digits hdigital hrest.digit
    have hdrop := dropWhile_digits hdigital hrest.digit
    obtain ⟨d, ds, rfl⟩ := List.exists_cons_of_ne_nil hne
    rw [List.cons_append] at htake hdrop
    by_cases he : e < 0
    · simp [exponentPart, he, hds, htake, hdrop, hvalue, abs_of_neg he]
    · simp [exponentPart, he, hds, htake, hdrop, hvalue, abs_of_nonneg (not_lt.1 he)]

/-- What a numeral is read as: an integer unless it has a fraction or an exponent. -/
def Numeral.reading (negative : Bool) (k : Numeral) (rest : List Char) :
    Except Stop (Json × List Char) :=
  if k.fraction.isEmpty && k.exponent.isNone then
    if integerDigits < k.whole.length then .error (.oversized k.whole.length)
    else
      let n : Int := natOfDigits k.whole
      .ok (.int (if negative then -n else n), rest)
  else
    .ok (.float (.ofDecimal negative (natOfDigits (k.whole ++ k.fraction))
      (k.exponent.getD 0 - k.fraction.length)), rest)

/-- A numeral is read part by part. -/
theorem unsigned_text {negative : Bool} {start : List Char} (hk : k.Sound)
    (hrest : EndsNumeral rest) :
    unsigned negative start (k.text ++ rest) = k.reading negative rest := by
  have hexponent : NoDigit (k.exponentText ++ rest) ∧
      (k.exponentText ++ rest).head? ≠ some '.' := by
    unfold Numeral.exponentText
    cases k.exponent with
    | none => exact ⟨hrest.digit, hrest.point⟩
    | some e => exact ⟨by rintro _ ⟨⟩; rfl, by simp⟩
  have hfraction : NoDigit (k.fractionText ++ (k.exponentText ++ rest)) := by
    unfold Numeral.fractionText
    split
    · exact hexponent.1
    · rintro _ ⟨⟩
      rfl
  unfold unsigned Numeral.text
  rw [List.append_assoc, List.append_assoc, wholePart?_text hk hfraction]
  dsimp only
  rw [fractionPart_text hk hexponent.1 hexponent.2]
  dsimp only
  rw [exponentPart_text hrest]
  rfl

/-! ## Integers -/

theorem sound_natDigits (n : Nat) : Numeral.Sound ⟨natDigits n, [], none⟩ where
  whole_ne_nil := natDigits_ne_nil n
  whole := digital_natDigits n
  zero h := by
    rcases Nat.eq_zero_or_pos n with rfl | hn
    · rfl
    · exact absurd h (head?_natDigits hn)
  fraction := nofun

/-- An integer that is not too long is read back. -/
theorem unsigned_natDigits {n : Nat} {negative : Bool} {start : List Char}
    (hn : (natDigits n).length ≤ integerDigits) (hrest : EndsNumeral rest) :
    unsigned negative start (natDigits n ++ rest) =
      .ok (.int (if negative then -n else n), rest) := by
  have h : unsigned negative start _ = _ := unsigned_text (sound_natDigits n) hrest
  simp only [Numeral.text, Numeral.fractionText, Numeral.exponentText, Numeral.reading,
    if_pos, List.append_nil, List.isEmpty_nil, Option.isNone_none, Bool.and_true,
    if_neg (not_lt.2 hn), natOfDigits_natDigits] at h
  exact h

/-! ## Finite numbers -/

/-- A numeral that is read as a number with a point, which has the value of some digits. -/
structure Numeral.Denotes (k : Numeral) (d : Digits) : Prop where
  sound : k.Sound
  pointed : (k.fraction.isEmpty && k.exponent.isNone) = false
  value : (natOfDigits (k.whole ++ k.fraction) * 10 ^ (k.exponent.getD 0 - k.fraction.length) : ℚ) =
    d.value

/-- Digits may be split anywhere after the first. -/
theorem sound_split {n j : Nat} (hn : 0 < n) (hj : 0 < j) (exponent : Option Int) :
    Numeral.Sound ⟨(natDigits n).take j, (natDigits n).drop j, exponent⟩ where
  whole_ne_nil := by
    rw [Ne, List.take_eq_nil_iff, not_or]
    exact ⟨hj.ne', natDigits_ne_nil n⟩
  whole := fun c hc => digital_natDigits n c (List.mem_of_mem_take hc)
  zero h := by
    rw [List.head?_take, if_neg hj.ne'] at h
    exact absurd h (head?_natDigits hn)
  fraction := fun c hc => digital_natDigits n c (List.mem_of_mem_drop hc)

/-- Digits that all stand behind the point, some zeros away from it. -/
theorem denotes_behind {n z : Nat} {exponent : Int} (hz : -exponent = z + (natDigits n).length) :
    Numeral.Denotes ⟨['0'], List.replicate z '0' ++ natDigits n, none⟩ ⟨n, exponent⟩ where
  sound := ⟨nofun, digital_zeros 1, fun _ => rfl, (digital_zeros z).append (digital_natDigits n)⟩
  pointed := by simp [natDigits_ne_nil]
  value := by
    have hdigits : natOfDigits (['0'] ++ (List.replicate z '0' ++ natDigits n)) = n := by
      rw [natOfDigits_append, natOfDigits_append, natOfDigits_zeros, natOfDigits_natDigits]
      simp [natOfDigits]
    have hplace : 0 - ((List.replicate z '0' ++ natDigits n).length : Int) = exponent := by
      rw [List.length_append, List.length_replicate]
      omega
    rw [hdigits, Option.getD_none, hplace]
    rfl

/-- Digits that all stand before the point, with some zeros between. -/
theorem denotes_before {n : Nat} (hn : 0 < n) (z : Nat) :
    Numeral.Denotes ⟨natDigits n ++ List.replicate z '0', ['0'], none⟩ ⟨n, z⟩ where
  sound := by
    have hne := natDigits_ne_nil n
    refine ⟨List.append_ne_nil_of_left_ne_nil hne _,
      (digital_natDigits n).append (digital_zeros z), fun h => ?_, digital_zeros 1⟩
    rw [List.head?_append_of_ne_nil _ hne] at h
    exact absurd h (head?_natDigits hn)
  pointed := rfl
  value := by
    have hdigits : natOfDigits (natDigits n ++ List.replicate z '0' ++ ['0']) =
        10 * (10 ^ z * n) := by
      rw [natOfDigits_append, natOfDigits_append, natOfDigits_zeros, natOfDigits_natDigits,
        List.length_replicate]
      rfl
    show (natOfDigits _ * 10 ^ (0 - 1 : Int) : ℚ) = n * 10 ^ (z : Int)
    rw [hdigits, zpow_natCast]
    push_cast
    ring

/-- Digits around the point. -/
theorem denotes_around {n w : Nat} {exponent : Int} (hn : 0 < n) (hw : 0 < w)
    (hlength : w < (natDigits n).length) (hexponent : exponent = w - (natDigits n).length) :
    Numeral.Denotes ⟨(natDigits n).take w, (natDigits n).drop w, none⟩ ⟨n, exponent⟩ where
  sound := sound_split hn hw none
  pointed := by simpa using hlength
  value := by
    have hplace : 0 - (((natDigits n).drop w).length : Int) = exponent := by
      rw [List.length_drop]
      omega
    rw [List.take_append_drop, natOfDigits_natDigits, Option.getD_none, hplace]
    rfl

theorem exists_positional {d : Digits} (hd : 0 < d.digits) :
    ∃ k : Numeral, k.Denotes d ∧ k.text = textNumberStyle.positional (natDigits d.digits)
      (d.exponent + (natDigits d.digits).length - 1) := by
  obtain ⟨n, exponent⟩ := d
  have hne := natDigits_ne_nil n
  have hpos : 0 < (natDigits n).length := List.length_pos_iff.2 hne
  unfold DecimalStyle.positional
  dsimp only at hd ⊢
  split
  · generalize hz : (-(exponent + (natDigits n).length - 1)).toNat - 1 = z
    refine ⟨_, denotes_behind (z := z) (by omega), ?_⟩
    simp [Numeral.text, Numeral.fractionText, Numeral.exponentText, hne]
  split
  · generalize hz : (exponent + (natDigits n).length - 1).toNat + 1 - (natDigits n).length = z
    obtain rfl : exponent = z := by omega
    refine ⟨_, denotes_before hd z, ?_⟩
    rw [DecimalStyle.padRight, hz]
    simp [Numeral.text, Numeral.fractionText, Numeral.exponentText, textNumberStyle, numberStyle]
  · generalize hw : (exponent + (natDigits n).length - 1).toNat + 1 = w at *
    have hdrop : (natDigits n).drop w ≠ [] := by
      rw [Ne, List.drop_eq_nil_iff]
      omega
    refine ⟨_, denotes_around (w := w) hd (by omega) (by omega) (by omega), ?_⟩
    simp [Numeral.text, Numeral.fractionText, Numeral.exponentText, hdrop]

theorem exists_scientific {d : Digits} (hd : 0 < d.digits) :
    ∃ k : Numeral, k.Denotes d ∧ k.text = textNumberStyle.scientific (natDigits d.digits)
      (d.exponent + (natDigits d.digits).length - 1) := by
  obtain ⟨n, exponent⟩ := d
  have hpos : 0 < (natDigits n).length := List.length_pos_iff.2 (natDigits_ne_nil n)
  generalize hleading : exponent + (natDigits n).length - 1 = leading
  have hplace : leading - (((natDigits n).drop 1).length : Int) = exponent := by
    rw [List.length_drop]
    omega
  refine ⟨⟨(natDigits n).take 1, (natDigits n).drop 1, some leading⟩,
    ⟨sound_split hd one_pos _, ?_, ?_⟩, ?_⟩
  · rw [Option.isNone_some, Bool.and_false]
  · rw [List.take_append_drop, natOfDigits_natDigits, Option.getD_some, hplace]
    rfl
  · unfold Numeral.text Numeral.fractionText Numeral.exponentText DecimalStyle.scientific
    dsimp only
    cases (natDigits n).drop 1 <;> simp [textNumberStyle, numberStyle]

theorem exists_body {d : Digits} (hd : 0 < d.digits) :
    let leading := d.exponent + (natDigits d.digits).length - 1
    ∃ k : Numeral, k.Denotes d ∧ k.text =
      if textNumberStyle.positionalFrom ≤ leading ∧ leading < textNumberStyle.positionalBelow then
        textNumberStyle.positional (natDigits d.digits) leading
      else textNumberStyle.scientific (natDigits d.digits) leading := by
  dsimp only
  split
  · exact exists_positional hd
  · exact exists_scientific hd

/-- The text of a finite number is a sign and a numeral that is read as the number. -/
theorem exists_numeral {x : Double} {negative : Bool} {m : Nat} {e : Int}
    (hx : x.view = .finite negative m e) :
    ∃ k : Numeral, k.Sound ∧
      (textNumberStyle.render x).toList = (if negative then ['-'] else []) ++ k.text ∧
      ∀ rest, k.reading negative rest = .ok (.float x, rest) := by
  obtain ⟨hfits, hpattern⟩ := Double.view_of_finite hx
  rcases Nat.eq_zero_or_pos m with rfl | hm
  · have he : e = -1074 := by
      have := hfits.full
      omega
    refine ⟨⟨['0'], ['0'], none⟩, ⟨nofun, digital_zeros 1, fun _ => rfl, digital_zeros 1⟩, ?_, ?_⟩
    · rw [DecimalStyle.render, hx]
      simp [Numeral.text, Numeral.fractionText, Numeral.exponentText, textNumberStyle, numberStyle]
    · intro rest
      rw [hpattern, he]
      rfl
  · have hhas := Digits.shortest_has hfits hm
    obtain ⟨k, hdenotes, htext⟩ := exists_body (Digits.pos_of_has hfits hm hhas)
    refine ⟨k, hdenotes.sound, ?_, fun rest => ?_⟩
    · rw [DecimalStyle.render, hx]
      dsimp only
      rw [if_neg hm.ne', String.toList_ofList, htext]
    · rw [← hdenotes.value] at hhas
      rw [Numeral.reading, if_neg (Bool.eq_false_iff.1 hdenotes.pointed), hpattern,
        Double.ofDecimal_of_has hfits hm hhas]

end Json
end CloudAccess
