import CloudAccess.Number.Decimal
import Mathlib

/-!
# Rounding to binary64

A finite pattern stands for `± m · 2 ^ e` with a mantissa and an exponent in certain ranges
(`Double.Fits`), and `Double.ofRatio` gives that pattern for every ratio that is nearer to
`m · 2 ^ e` than to its neighbours, the midpoints going to the even mantissa:

    i = intervalOf m e  →  i.Has (num / den)  →  ofRatio negative num den = ± m · 2 ^ e
                                                                          (ofRatio_of_has)

The integers that are rounded to an infinity are told by their size (`ofInt?_eq_none_iff`).

Ratios and powers are those of the rationals, with integers as exponents.
-/

namespace CloudAccess

/-! ## Definitions -/

/-- A rational between two others, which count themselves if `closed`. -/
def Within (closed : Bool) (a b q : ℚ) : Prop :=
  if closed then a ≤ q ∧ q ≤ b else a < q ∧ q < b

/-- A rational of the interval. -/
def Digits.Interval.Has (i : Digits.Interval) (q : ℚ) : Prop :=
  Within i.closed (i.low * 2 ^ i.unit) (i.high * 2 ^ i.unit) q

/-- A mantissa and an exponent as a finite number has them: the mantissa has 53 digits unless the
exponent is the least one. -/
structure Double.Fits (m : Nat) (e : Int) : Prop where
  mantissa_lt : m < 2 ^ 53
  exponent_ge : -1074 ≤ e
  exponent_le : e ≤ 971
  full : 2 ^ 52 ≤ m ∨ e = -1074

/-- The pattern of `m · 2 ^ e`. -/
def Double.patternOf (m : Nat) (e : Int) : Nat := (e + 1074).toNat * twoPow 52 + m

/-- An integer at least halfway from the largest finite number to the next power of two, on either
side. -/
def Double.Beyond (n : Int) : Prop := twoPow 1024 ≤ n.natAbs + twoPow 970

/-! ## Between two rationals -/

namespace Within

variable {closed : Bool} {a b c d q : ℚ}

theorem le (h : Within closed a b q) : a ≤ q ∧ q ≤ b := by
  cases closed with
  | true => exact h
  | false => exact ⟨le_of_lt h.1, le_of_lt h.2⟩

theorem mono (h : Within closed a b q) (hc : c ≤ a) (hd : b ≤ d) : Within closed c d q := by
  cases closed with
  | true => exact ⟨hc.trans h.1, h.2.trans hd⟩
  | false => exact ⟨hc.trans_lt h.1, h.2.trans_le hd⟩

theorem mul_right {s : ℚ} (hs : 0 < s) :
    Within closed (a * s) (b * s) (q * s) ↔ Within closed a b q := by
  unfold Within
  simp only [mul_le_mul_iff_left₀ hs, mul_lt_mul_iff_left₀ hs]

end Within

/-! ## Powers -/

theorem twoPow_pos (n : Nat) : 0 < twoPow n := Nat.pow_pos two_pos

theorem tenPow_pos (n : Nat) : 0 < tenPow n := Nat.pow_pos (by decide)

theorem twoPow_le {n k : Nat} (h : n ≤ k) : twoPow n ≤ twoPow k := Nat.pow_le_pow_right two_pos h

theorem tenPow_lt {n k : Nat} (h : n < k) : tenPow n < tenPow k :=
  Nat.pow_lt_pow_right (by decide) h

theorem twoPow_le_tenPow (n : Nat) : twoPow n ≤ tenPow n := Nat.pow_le_pow_left (by decide) n

/-- A power of a natural with an integer as its exponent. -/
theorem cast_pow_toNat {b : Nat} (hb : b ≠ 0) (e : Int) :
    ((b.pow e.toNat : Nat) : ℚ) = (b : ℚ) ^ e * (b.pow (-e).toNat : Nat) := by
  have hb' : (b : ℚ) ≠ 0 := Nat.cast_ne_zero.2 hb
  rcases le_total 0 e with he | he
  · obtain ⟨n, rfl⟩ := Int.eq_ofNat_of_zero_le he
    simp
  · obtain ⟨n, rfl⟩ := Int.exists_eq_neg_ofNat he
    simp [hb']

theorem cast_twoPow {e : Int} (h : 0 ≤ e) : ((twoPow e.toNat : Nat) : ℚ) = 2 ^ e := by
  have hneg : (-e).toNat = 0 := by omega
  simpa [hneg] using cast_pow_toNat two_ne_zero e

theorem cast_tenPow {e : Int} (h : 0 ≤ e) : ((tenPow e.toNat : Nat) : ℚ) = 10 ^ e := by
  have hneg : (-e).toNat = 0 := by omega
  simpa [hneg] using cast_pow_toNat (b := 10) (by decide) e

theorem two_zpow_pos (e : Int) : (0 : ℚ) < 2 ^ e := zpow_pos two_pos e

theorem two_zpow_add (e k : Int) : (2 : ℚ) ^ (e + k) = 2 ^ e * 2 ^ k := zpow_add₀ two_ne_zero e k

theorem two_zpow_lt {e k : Int} : (2 : ℚ) ^ e < 2 ^ k ↔ e < k := zpow_lt_zpow_iff_right₀ one_lt_two

theorem ten_zpow_pos (e : Int) : (0 : ℚ) < 10 ^ e := zpow_pos (by norm_num) e

theorem ten_zpow_add (e k : Int) : (10 : ℚ) ^ (e + k) = 10 ^ e * 10 ^ k :=
  zpow_add₀ (by norm_num) e k

theorem ten_zpow_le {e k : Int} : (10 : ℚ) ^ e ≤ 10 ^ k ↔ e ≤ k :=
  zpow_le_zpow_iff_right₀ (by norm_num)

theorem ten_zpow_lt {e k : Int} : (10 : ℚ) ^ e < 10 ^ k ↔ e < k :=
  zpow_lt_zpow_iff_right₀ (by norm_num)

namespace Double

/-! ## Patterns -/

theorem eq_ofMagnitude (x : Double) : x = ofMagnitude x.isNegative x.magnitude := by
  have hlt := x.bits.toNat_lt
  have hbits : x.magnitude + (if x.isNegative = true then twoPow 63 else 0) = x.bits.toNat := by
    simp only [magnitude, isNegative, Nat.pow_eq, decide_eq_true_eq]
    split <;> omega
  unfold ofMagnitude
  rw [hbits, UInt64.ofNat_toNat]

theorem magnitude_lt (x : Double) : x.magnitude < 2 ^ 63 := Nat.mod_lt _ (by decide)

theorem view_of_infinite {x : Double} {negative : Bool} (h : x.view = .infinite negative) :
    x = infinity negative := by
  have hx := x.eq_ofMagnitude
  unfold view at h
  simp only [Nat.pow_eq] at h
  split at h
  · next hfield =>
    split at h
    · next hfraction =>
      obtain rfl := View.infinite.inj h
      have hmagnitude : x.magnitude = 2047 * twoPow 52 := by
        show _ = 2047 * 2 ^ 52
        omega
      rwa [hmagnitude] at hx
    · cases h
  · split at h <;> cases h

theorem view_of_finite {x : Double} {negative : Bool} {m : Nat} {e : Int}
    (h : x.view = .finite negative m e) : Fits m e ∧ x = ofMagnitude negative (patternOf m e) := by
  have hx := x.eq_ofMagnitude
  have hlt := x.magnitude_lt
  unfold view at h
  simp only [Nat.pow_eq] at h
  split at h
  · split at h <;> cases h
  next hspecial =>
  split at h
  · next hfield =>
    obtain ⟨rfl, rfl, rfl⟩ := View.finite.inj h
    have hpattern : patternOf (x.magnitude % 2 ^ 52) (-1074) = x.magnitude := by
      simp only [patternOf, Nat.pow_eq]
      omega
    rw [hpattern]
    exact ⟨⟨by omega, le_rfl, by omega, .inr rfl⟩, hx⟩
  · next hfield =>
    obtain ⟨rfl, rfl, rfl⟩ := View.finite.inj h
    have hpattern : patternOf (2 ^ 52 + x.magnitude % 2 ^ 52)
        ((x.magnitude / 2 ^ 52 : Nat) - 1075) = x.magnitude := by
      simp only [patternOf, Nat.pow_eq]
      omega
    rw [hpattern]
    exact ⟨⟨by omega, by omega, by omega, .inl (by omega)⟩, hx⟩

theorem magnitude_ofMagnitude {negative : Bool} {pattern : Nat} (h : pattern < 2 ^ 63) :
    (ofMagnitude negative pattern).magnitude = pattern := by
  simp only [magnitude, ofMagnitude, UInt64.toNat_ofNat', Nat.pow_eq]
  split <;> omega

theorem isNaN_ofMagnitude {negative : Bool} {pattern : Nat} (h : pattern ≤ 2047 * twoPow 52) :
    (ofMagnitude negative pattern).isNaN = false := by
  simp only [Nat.pow_eq] at h
  unfold isNaN view
  rw [magnitude_ofMagnitude (by omega)]
  dsimp only [Nat.pow_eq]
  split
  · next hfield => rw [if_pos (by omega)]; rfl
  · split <;> rfl

/-! ## Rounding a ratio -/

/-- A ratio that is at most a half away from a natural. -/
theorem le_of_half {num den n : Nat} (hden : 0 < den)
    (h : (n - 1 / 2 : ℚ) ≤ num / den ∧ (num / den : ℚ) ≤ n + 1 / 2) :
    2 * (n * den) ≤ 2 * num + den ∧ 2 * num ≤ 2 * (n * den) + den := by
  have hden' : (0 : ℚ) < den := Nat.cast_pos.2 hden
  rw [le_div_iff₀ hden', div_le_iff₀ hden'] at h
  constructor
  · have : (2 * (n * den) : ℚ) ≤ 2 * num + den := by linarith
    exact_mod_cast this
  · have : (2 * num : ℚ) ≤ 2 * (n * den) + den := by linarith
    exact_mod_cast this

/-- A ratio that is less than a half away from it. -/
theorem lt_of_half {num den n : Nat} (hden : 0 < den)
    (h : (n - 1 / 2 : ℚ) < num / den ∧ (num / den : ℚ) < n + 1 / 2) :
    2 * (n * den) < 2 * num + den ∧ 2 * num < 2 * (n * den) + den := by
  have hden' : (0 : ℚ) < den := Nat.cast_pos.2 hden
  rw [lt_div_iff₀ hden', div_lt_iff₀ hden'] at h
  constructor
  · have : (2 * (n * den) : ℚ) < 2 * num + den := by linarith
    exact_mod_cast this
  · have : (2 * num : ℚ) < 2 * (n * den) + den := by linarith
    exact_mod_cast this

/-- Of the two naturals around a ratio the nearer one is taken, of two at the same distance the
even one. -/
theorem roundHalfEven_of_within {num den n : Nat} (hden : 0 < den)
    (h : Within (n % 2 = 0) (n - 1 / 2) (n + 1 / 2) (num / den)) : roundHalfEven num den = n := by
  have hle := le_of_half hden h.le
  have hodd : n % 2 = 1 → 2 * (n * den) < 2 * num + den ∧ 2 * num < 2 * (n * den) + den := by
    intro hn
    have hopen : decide (n % 2 = 0) = false := by simp [hn]
    rw [hopen] at h
    exact lt_of_half hden h
  have hnum := Nat.div_add_mod num den
  have hrest := Nat.mod_lt num hden
  unfold roundHalfEven
  generalize num / den = q at *
  generalize num % den = r at *
  subst hnum
  have hnear : n = q ∨ n = q + 1 := by
    have h1 : n < q + 2 := by nlinarith
    have h2 : q < n + 1 := by nlinarith
    omega
  rcases hnear with rfl | rfl
  · rw [Nat.mul_comm n den] at hle hodd
    dsimp only
    split_ifs <;> omega
  · rw [Nat.add_mul, Nat.mul_comm q den] at hle hodd
    dsimp only
    split_ifs <;> omega

theorem scaled_of_within {num den n : Nat} {e : Int} (hden : 0 < den)
    (h : Within (n % 2 = 0) ((n - 1 / 2) * 2 ^ e) ((n + 1 / 2) * 2 ^ e) (num / den)) :
    scaled num den e = n := by
  have hscaled : (num / den : ℚ) = num / den * 2 ^ (-e) * 2 ^ e := by
    rw [mul_assoc, ← two_zpow_add, neg_add_cancel, zpow_zero, mul_one]
  rw [hscaled, Within.mul_right (two_zpow_pos e)] at h
  unfold scaled
  split
  · next he =>
    apply roundHalfEven_of_within (Nat.mul_pos hden (twoPow_pos _))
    rwa [Nat.cast_mul, cast_twoPow he, ← div_div, div_eq_mul_inv _ ((2 : ℚ) ^ e), ← zpow_neg]
  · next he =>
    apply roundHalfEven_of_within hden
    rwa [Nat.cast_mul, cast_twoPow (by omega), mul_div_right_comm]

/-- A ratio lies between two powers of two that are next to each other. -/
theorem exists_binade {num den : Nat} (hnum : 0 < num) (hden : 0 < den) :
    ∃ k : Int, unitExponent num den = max k (-1074) ∧
      (2 : ℚ) ^ (k + 52) ≤ num / den ∧ (num / den : ℚ) < 2 ^ (k + 53) := by
  have hnum' : (2 : ℚ) ^ (num.log2 : Int) ≤ num ∧ (num : ℚ) < 2 ^ (num.log2 + 1 : Int) := by
    exact_mod_cast And.intro (Nat.log2_self_le hnum.ne') Nat.lt_log2_self
  have hden' : (2 : ℚ) ^ (den.log2 : Int) ≤ den ∧ (den : ℚ) < 2 ^ (den.log2 + 1 : Int) := by
    exact_mod_cast And.intro (Nat.log2_self_le hden.ne') Nat.lt_log2_self
  have hpos : (0 : ℚ) < den := Nat.cast_pos.2 hden
  unfold unitExponent
  dsimp only
  generalize hguess : (num.log2 : Int) - den.log2 - 52 = guess
  have hlow : (2 : ℚ) ^ (guess + 51) ≤ num / den := by
    rw [le_div_iff₀ hpos]
    calc (2 : ℚ) ^ (guess + 51) * den
        ≤ 2 ^ (guess + 51) * 2 ^ (den.log2 + 1 : Int) :=
          mul_le_mul_of_nonneg_left hden'.2.le (two_zpow_pos _).le
      _ = 2 ^ (num.log2 : Int) := by
          rw [← two_zpow_add]
          congr 1
          omega
      _ ≤ num := hnum'.1
  have hhigh : (num / den : ℚ) < 2 ^ (guess + 53) := by
    rw [div_lt_iff₀ hpos]
    calc (num : ℚ) < 2 ^ (num.log2 + 1 : Int) := hnum'.2
      _ = 2 ^ (guess + 53) * 2 ^ (den.log2 : Int) := by
          rw [← two_zpow_add]
          congr 1
          omega
      _ ≤ 2 ^ (guess + 53) * den := mul_le_mul_of_nonneg_left hden'.1 (two_zpow_pos _).le
  generalize hfull : (if 0 ≤ guess then _ else _ : Bool) = full
  have full_iff : full = true ↔ (2 : ℚ) ^ (guess + 52) ≤ num / den := by
    have h52 : ((twoPow 52 : Nat) : ℚ) = 2 ^ (52 : Int) := by norm_num
    rw [← hfull, le_div_iff₀ hpos, two_zpow_add]
    split
    · next hg =>
      rw [decide_eq_true_iff, ← @Nat.cast_le ℚ, Nat.cast_mul, Nat.cast_mul, cast_twoPow hg,
        h52, mul_assoc, mul_comm (den : ℚ)]
    · next hg =>
      rw [decide_eq_true_iff, ← @Nat.cast_le ℚ, Nat.cast_mul, Nat.cast_mul,
        cast_twoPow (by omega), h52, zpow_neg, le_mul_inv_iff₀ (two_zpow_pos guess), mul_comm,
        mul_comm (den : ℚ), ← mul_assoc]
  cases full with
  | true => exact ⟨guess, rfl, full_iff.1 rfl, hhigh⟩
  | false =>
    refine ⟨guess - 1, rfl, by rwa [sub_add], ?_⟩
    rw [← not_le, sub_add]
    exact fun h => Bool.false_ne_true (full_iff.2 h)

/-- The exponent at which a ratio has 53 digits before the point. -/
theorem unitExponent_eq {num den : Nat} {e : Int} (hnum : 0 < num) (hden : 0 < den)
    (he : -1074 ≤ e) (hlow : (2 : ℚ) ^ (e + 52) ≤ num / den ∨ e = -1074)
    (hhigh : (num / den : ℚ) < 2 ^ (e + 53)) : unitExponent num den = e := by
  obtain ⟨k, hunit, hk, hk'⟩ := exists_binade hnum hden
  have hle : k < e + 1 := by
    have := two_zpow_lt.1 (hk.trans_lt hhigh)
    omega
  rcases hlow with hlow | rfl
  · have := two_zpow_lt.1 (hlow.trans_lt hk')
    omega
  · omega

section

variable {num den m : Nat} {e : Int}

/-- The interval in units of the last digit of the mantissa. -/
theorem within_of_has {q : ℚ} (h : (Digits.intervalOf m e).Has q) :
    Within (m % 2 = 0) ((m - 1 / 2) * 2 ^ e) ((m + 1 / 2) * 2 ^ e) q := by
  have hunit : (2 : ℚ) ^ e = 4 * 2 ^ (e - 2) := by
    rw [zpow_sub₀ two_ne_zero]
    norm_num
    ring
  have hlow : (4 * m - 2 : ℚ) ≤ (Digits.intervalOf m e).low := by
    have : 4 * m ≤ (Digits.intervalOf m e).low + 2 := by
      simp only [Digits.intervalOf]
      split_ifs <;> omega
    rw [sub_le_iff_le_add]
    exact_mod_cast this
  refine Within.mono h ?_ ?_
  · rw [hunit]
    calc (m - 1 / 2 : ℚ) * (4 * 2 ^ (e - 2)) = (4 * m - 2) * 2 ^ (e - 2) := by ring
      _ ≤ _ := mul_le_mul_of_nonneg_right hlow (two_zpow_pos _).le
  · rw [hunit]
    refine le_of_eq ?_
    simp only [Digits.intervalOf]
    push_cast
    ring

/-- Above the power of two that its mantissa starts at, a number is rounded to on its own grid. -/
theorem rounds_of_binade (hfits : Fits m e) (hnum : 0 < num) (hden : 0 < den)
    (h : (Digits.intervalOf m e).Has (num / den))
    (hlow : (2 : ℚ) ^ (e + 52) ≤ num / den ∨ e = -1074) :
    unitExponent num den = e ∧ scaled num den e = m := by
  have hwithin := within_of_has h
  refine ⟨unitExponent_eq hnum hden hfits.exponent_ge hlow ?_, scaled_of_within hden hwithin⟩
  have hm : (m : ℚ) + 1 / 2 < 2 ^ (53 : Int) := by
    have : (m : ℚ) + 1 ≤ 2 ^ 53 := by exact_mod_cast hfits.mantissa_lt
    norm_num at this ⊢
    linarith
  calc (num / den : ℚ) ≤ (m + 1 / 2) * 2 ^ e := hwithin.le.2
    _ < 2 ^ (53 : Int) * 2 ^ e := mul_lt_mul_of_pos_right hm (two_zpow_pos e)
    _ = 2 ^ (e + 53) := by rw [two_zpow_add, mul_comm]

/-- Below it the grid is finer, and the last number of that grid carries into the next exponent. -/
theorem rounds_below_binade (hnum : 0 < num) (hden : 0 < den) (he : -1074 < e)
    (h : (Digits.intervalOf (2 ^ 52) e).Has (num / den))
    (hhigh : (num / den : ℚ) < 2 ^ (e + 52)) :
    unitExponent num den = e - 1 ∧ scaled num den (e - 1) = 2 ^ 53 := by
  have hlow : (2 ^ 53 - 1 / 2 : ℚ) * 2 ^ (e - 1) ≤ num / den := by
    have hle : ((Digits.intervalOf (2 ^ 52) e).low : ℚ) * 2 ^ (e - 2) ≤ num / den := h.le.1
    have hvalue : (Digits.intervalOf (2 ^ 52) e).low = 4 * 2 ^ 52 - 1 := if_pos ⟨rfl, he⟩
    have hunit : (2 : ℚ) ^ (e - 1) = 2 ^ (e - 2) * 2 := by
      rw [← zpow_add_one₀ two_ne_zero]
      congr 1
      omega
    rw [hvalue] at hle
    rw [hunit]
    norm_num at hle ⊢
    linarith
  constructor
  · refine unitExponent_eq hnum hden (by omega) (.inl (le_trans ?_ hlow)) ?_
    · rw [two_zpow_add, mul_comm]
      refine mul_le_mul_of_nonneg_right ?_ (two_zpow_pos _).le
      norm_num
    · rwa [sub_add_eq_add_sub, add_sub_assoc]
  · refine scaled_of_within hden (Within.mono (a := num / den) (b := num / den) ?_ ?_ ?_)
    · exact ⟨le_rfl, le_rfl⟩
    · exact_mod_cast hlow
    · refine hhigh.le.trans ?_
      have hcarry : (2 : ℚ) ^ (e + 52) = 2 ^ 53 * 2 ^ (e - 1) := by
        rw [← zpow_natCast, ← two_zpow_add]
        congr 1
        omega
      rw [hcarry]
      refine mul_le_mul_of_nonneg_right ?_ (two_zpow_pos _).le
      norm_num

/-- Only the least number of a binade reaches below it. -/
theorem eq_of_below_binade (hfits : Fits m e) (h : (Digits.intervalOf m e).Has (num / den))
    (hhigh : (num / den : ℚ) < 2 ^ (e + 52)) (he : e ≠ -1074) : m = 2 ^ 52 := by
  by_contra hne
  have hlt : 2 ^ 52 + 1 ≤ m := by
    have := hfits.full
    omega
  have hm : (2 : ℚ) ^ (52 : Int) ≤ m - 1 / 2 := by
    have : (2 ^ 52 + 1 : ℚ) ≤ m := by exact_mod_cast hlt
    rw [zpow_ofNat]
    linarith
  refine absurd hhigh (not_lt.2 ?_)
  calc (2 : ℚ) ^ (e + 52) = 2 ^ (52 : Int) * 2 ^ e := by rw [two_zpow_add, mul_comm]
    _ ≤ (m - 1 / 2) * 2 ^ e := mul_le_mul_of_nonneg_right hm (two_zpow_pos e).le
    _ ≤ num / den := (within_of_has h).le.1

/-- A ratio that is nearest to a number is rounded to it. -/
theorem ofRatio_of_has {negative : Bool} (hfits : Fits m e) (hnum : 0 < num) (hden : 0 < den)
    (h : (Digits.intervalOf m e).Has (num / den)) :
    ofRatio negative num den = ofMagnitude negative (patternOf m e) := by
  have hlt : patternOf m e < 2047 * twoPow 52 := by
    obtain ⟨h1, h2, h3, -⟩ := hfits
    simp only [patternOf, Nat.pow_eq]
    omega
  have hrounds : (unitExponent num den + 1074).toNat * twoPow 52 +
      scaled num den (unitExponent num den) = patternOf m e := by
    by_cases hlow : (2 : ℚ) ^ (e + 52) ≤ num / den ∨ e = -1074
    · obtain ⟨hunit, hscaled⟩ := rounds_of_binade hfits hnum hden h hlow
      rw [hunit, hscaled]
      rfl
    · rw [not_or, not_le] at hlow
      obtain ⟨hhigh, he⟩ := hlow
      obtain rfl := eq_of_below_binade hfits h hhigh he
      have hge := hfits.exponent_ge
      obtain ⟨hunit, hscaled⟩ := rounds_below_binade hnum hden (by omega) h hhigh
      rw [hunit, hscaled]
      simp only [patternOf, Nat.pow_eq]
      omega
  unfold ofRatio
  rw [if_neg hnum.ne']
  dsimp only
  rw [hrounds, if_neg (not_le.2 hlt)]

end

/-- No ratio is rounded to a NaN. -/
theorem isNaN_ofRatio (negative : Bool) (num den : Nat) :
    (ofRatio negative num den).isNaN = false := by
  unfold ofRatio
  split
  · exact isNaN_ofMagnitude (Nat.zero_le _)
  · dsimp only
    split
    · exact isNaN_ofMagnitude le_rfl
    · next h => exact isNaN_ofMagnitude (not_le.1 h).le

/-! ## Integers -/

/-- A ratio is rounded to an even natural or more from halfway below it on. -/
theorem le_roundHalfEven_iff {num den n : Nat} (hden : 0 < den) (hn : n % 2 = 0) :
    n ≤ roundHalfEven num den ↔ 2 * (n * den) ≤ 2 * num + den := by
  have hnum := Nat.div_add_mod num den
  have hrest := Nat.mod_lt num hden
  unfold roundHalfEven
  generalize num / den = q at *
  generalize num % den = r at *
  subst hnum
  dsimp only
  rcases Nat.lt_trichotomy n (q + 1) with hlt | rfl | hgt
  · have hle : n * den ≤ den * q := by
      rw [Nat.mul_comm den q]
      exact Nat.mul_le_mul_right den (Nat.le_of_lt_succ hlt)
    split_ifs <;> omega
  · have hprod : (q + 1) * den = den * q + den := by rw [Nat.mul_comm, Nat.mul_add, Nat.mul_one]
    split_ifs <;> omega
  · have hle : den * q + 2 * den ≤ n * den := by
      have := Nat.mul_le_mul_right den (show q + 2 ≤ n by omega)
      rwa [Nat.add_mul, Nat.mul_comm q den] at this
    split_ifs <;> omega

/-- A ratio below a natural is not rounded to more than that. -/
theorem roundHalfEven_le {num den n : Nat} (h : num < n * den) : roundHalfEven num den ≤ n := by
  have hden : 0 < den := Nat.pos_of_mul_pos_left (Nat.zero_lt_of_lt h)
  have hdiv : num / den < n := (Nat.div_lt_iff_lt_mul hden).2 h
  unfold roundHalfEven
  dsimp only
  split_ifs <;> omega

theorem scaled_le {num : Nat} {e : Int} (h : (num : ℚ) < 2 ^ (e + 53)) :
    scaled num 1 e ≤ 2 ^ 53 := by
  rw [two_zpow_add] at h
  unfold scaled
  split
  · next he =>
    apply roundHalfEven_le
    rw [← cast_twoPow he] at h
    rw [one_mul, Nat.mul_comm]
    exact_mod_cast h
  · next he =>
    apply roundHalfEven_le
    have hscaled := mul_lt_mul_of_pos_right h (two_zpow_pos (-e))
    rw [mul_right_comm, ← two_zpow_add, add_neg_cancel, zpow_zero, one_mul,
      ← cast_twoPow (by omega)] at hscaled
    rw [mul_one]
    exact_mod_cast hscaled

theorem le_scaled_iff {num n : Nat} {e : Int} (he : 0 ≤ e) (hn : n % 2 = 0) :
    n ≤ scaled num 1 e ↔ 2 * (n * twoPow e.toNat) ≤ 2 * num + twoPow e.toNat := by
  unfold scaled
  rw [if_pos he, one_mul, le_roundHalfEven_iff (twoPow_pos _) hn]

/-- An integer has its 53 digits at some exponent. -/
theorem exists_binade_nat {num : Nat} (hnum : num ≠ 0) :
    ∃ k : Int, -53 < k ∧ unitExponent num 1 = k ∧ (2 : ℚ) ^ (k + 52) ≤ num ∧
      (num : ℚ) < 2 ^ (k + 53) := by
  obtain ⟨k, hk, hlow, hhigh⟩ := exists_binade (Nat.pos_of_ne_zero hnum) Nat.one_pos
  rw [Nat.cast_one, div_one] at hlow hhigh
  have hone : (2 : ℚ) ^ (0 : Int) ≤ num := by exact_mod_cast Nat.pos_of_ne_zero hnum
  have hlower := two_zpow_lt.1 (hone.trans_lt hhigh)
  exact ⟨k, by omega, by omega, hlow, hhigh⟩

/-- What becomes infinite is what the exponent and the mantissa together have no pattern for. -/
theorem magnitude_ofRatio_eq_iff {negative : Bool} {num den : Nat} (hnum : num ≠ 0) :
    (ofRatio negative num den).magnitude = 2047 * twoPow 52 ↔
      2047 * twoPow 52 ≤ (unitExponent num den + 1074).toNat * twoPow 52 +
        scaled num den (unitExponent num den) := by
  unfold ofRatio
  rw [if_neg hnum]
  dsimp only
  split
  · next h => exact iff_of_true (magnitude_ofMagnitude (by decide)) h
  · next h =>
    refine iff_of_false ?_ h
    rw [magnitude_ofMagnitude ((not_le.1 h).trans (by decide))]
    omega

/-- **The integers that no number is near** are those beyond the largest finite one by half a unit
of its last place. -/
theorem ofInt?_eq_none_iff {n : Int} : ofInt? n = none ↔ Beyond n := by
  have hnone : ofInt? n = none ↔
      (ofRatio (n < 0) n.natAbs 1).magnitude = 2047 * twoPow 52 := by
    unfold ofInt?
    dsimp only
    split
    · next h => exact iff_of_true rfl h
    · next h => exact iff_of_false nofun h
  have h52 : twoPow 52 = 2 ^ 52 := rfl
  have h971 : twoPow 971 = 2 * twoPow 970 := by decide +kernel
  have h1024 : twoPow 1024 = 2 ^ 54 * twoPow 970 := by decide +kernel
  have hpos := twoPow_pos 970
  have h970 := cast_twoPow (e := 970) (by decide)
  rw [show (970 : Int).toNat = 970 from rfl] at h970
  rw [hnone, Beyond, h1024]
  generalize n.natAbs = num
  generalize decide (n < 0) = negative
  by_cases hnum : num = 0
  · subst hnum
    have hzero : (ofRatio negative 0 1).magnitude = 0 := magnitude_ofMagnitude (by decide)
    rw [hzero, h52]
    omega
  obtain ⟨k, hk, hunit, hlow, hhigh⟩ := exists_binade_nat hnum
  have hscaled := scaled_le hhigh
  rw [magnitude_ofRatio_eq_iff hnum, hunit, h52]
  -- at the exponent 971 of the largest numbers it depends on whether the mantissa is rounded up
  rcases lt_trichotomy k 971 with hk' | rfl | hk'
  · have hsmall : num < 2 ^ 53 * twoPow 970 := by
      have hle : (2 : ℚ) ^ (k + 53) ≤ 2 ^ (53 : Int) * 2 ^ (970 : Int) := by
        rw [← two_zpow_add]
        exact zpow_le_zpow_right₀ one_le_two (by omega)
      rw [← h970] at hle
      exact_mod_cast hhigh.trans_le hle
    omega
  · have hround : 2 ^ 53 ≤ scaled num 1 971 ↔ _ := le_scaled_iff (by decide) (by decide)
    rw [show (971 : Int).toNat = 971 from rfl, h971] at hround
    rw [show ((971 : Int) + 1074).toNat = 2045 from rfl]
    omega
  · have hlarge : 2 ^ 54 * twoPow 970 ≤ num := by
      have hle : (2 : ℚ) ^ (54 : Int) * 2 ^ (970 : Int) ≤ 2 ^ (k + 52) := by
        rw [← two_zpow_add]
        exact zpow_le_zpow_right₀ one_le_two (by omega)
      rw [← h970] at hle
      exact_mod_cast hle.trans hlow
    have hfull : 2 ^ 52 ≤ scaled num 1 k := by
      have hk0 : 0 ≤ k := by omega
      rw [le_scaled_iff hk0 (by decide)]
      rw [add_comm, two_zpow_add, ← cast_twoPow hk0] at hlow
      have hle : 2 ^ 52 * twoPow k.toNat ≤ num := by exact_mod_cast hlow
      omega
    omega

/-- The whole part of a number is less than `2 ^ 1024`. -/
theorem natAbs_lt_of_truncate? {x : Double} {n : Int} (h : x.truncate? = some n) :
    n.natAbs < twoPow 1024 := by
  unfold truncate? at h
  split at h
  · next negative m e hview =>
    obtain ⟨⟨hm, -, he, -⟩, -⟩ := view_of_finite hview
    have hsize : (if 0 ≤ e then m * twoPow e.toNat else m / twoPow (-e).toNat) <
        twoPow 1024 := by
      split
      · calc m * twoPow e.toNat
          _ < 2 ^ 53 * twoPow e.toNat := Nat.mul_lt_mul_of_pos_right hm (twoPow_pos _)
          _ = twoPow (53 + e.toNat) := (Nat.pow_add 2 53 e.toNat).symm
          _ ≤ twoPow 1024 := twoPow_le (by omega)
      · calc m / twoPow (-e).toNat
          _ ≤ m := Nat.div_le_self _ _
          _ < twoPow 53 := hm
          _ ≤ twoPow 1024 := twoPow_le (by decide)
    obtain rfl := Option.some.inj h
    split <;> omega
  · cases h

end Double
end CloudAccess
