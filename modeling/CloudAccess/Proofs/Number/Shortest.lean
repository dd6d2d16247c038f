import CloudAccess.Proofs.Number.Rounding
import Mathlib

/-!
# The shortest digits read back as the number

The digits written for a number lie in the interval of what is rounded to it, and digits of that
interval are read as the number:

    (intervalOf m e).Has (shortest m e).value                             (shortest_has)
    (intervalOf m e).Has (digits * 10 ^ exponent)  →
      ofDecimal negative digits exponent = ± m · 2 ^ e                    (ofDecimal_of_has)

The search for digits starts at the leading place of the number and tries eighteen places.  By
then the grid is finer than the interval, so that it has a multiple inside.
-/

namespace CloudAccess

namespace Digits

/-- The rational that digits stand for. -/
def value (d : Digits) : ℚ := d.digits * 10 ^ d.exponent

/-! ## The grid of a place -/

/-- The two scales stand in the ratio of the unit to the place. -/
theorem scales_eq (unit place : Int) : ∃ f : ℚ, 0 < f ∧
    (∀ a : Nat, ((a * (scales unit place).1 : Nat) : ℚ) = a * 2 ^ unit * f) ∧
    ∀ a : Nat, ((a * (scales unit place).2 : Nat) : ℚ) = a * 10 ^ place * f := by
  have htwo := cast_pow_toNat two_ne_zero unit
  have hten := cast_pow_toNat (b := 10) (by decide) place
  refine ⟨twoPow (-unit).toNat * tenPow (-place).toNat, ?_, fun a => ?_, fun a => ?_⟩
  · exact_mod_cast Nat.mul_pos (twoPow_pos _) (tenPow_pos _)
  · rw [scales, Nat.cast_mul, Nat.cast_mul, htwo]
    push_cast
    ring
  · rw [scales, Nat.cast_mul, Nat.cast_mul, hten]
    push_cast
    ring

namespace Interval

variable {i : Interval} {place : Int}

theorem holds_iff {n : Nat} : i.holds n place = true ↔ i.Has (n * 10 ^ place) := by
  obtain ⟨f, hf, hs, ht⟩ := scales_eq i.unit place
  unfold holds Has Within
  cases i.closed <;>
    simp only [if_true, if_false, Bool.false_eq_true, Bool.and_eq_true, decide_eq_true_iff,
      ← @Nat.cast_le ℚ, ← @Nat.cast_lt ℚ, hs, ht, mul_le_mul_iff_left₀ hf,
      mul_lt_mul_iff_left₀ hf]

/-- What a place gives lies in the interval. -/
theorem has_of_nearest? {n : Nat} (h : i.nearest? place = some n) : i.Has (n * 10 ^ place) := by
  rw [← holds_iff]
  unfold nearest? at h
  dsimp only at h
  split at h
  · cases h
  · next hbelow _ =>
    obtain rfl := Option.some.inj h
    exact hbelow
  · next _ habove =>
    obtain rfl := Option.some.inj h
    exact habove
  · next hbelow habove =>
    split_ifs at h <;> obtain rfl := Option.some.inj h <;> assumption

/-- A grid that is as fine as the unit has a multiple next to the value. -/
theorem isSome_nearest? (hlow : i.low < i.value) (hhigh : i.value + 1 < i.high)
    (hfine : (10 : ℚ) ^ place ≤ 2 ^ i.unit) : (i.nearest? place).isSome := by
  generalize hst : scales i.unit place = st
  obtain ⟨s, t⟩ := st
  have hfine' : t ≤ s ∧ 0 < t := by
    obtain ⟨f, hf, hs, ht⟩ := scales_eq i.unit place
    rw [hst] at hs ht
    have hle : ((1 * t : Nat) : ℚ) ≤ (1 * s : Nat) := by
      rw [hs, ht, Nat.cast_one, one_mul, one_mul]
      exact mul_le_mul_of_nonneg_right hfine hf.le
    have hpos : (0 : ℚ) < (1 * t : Nat) := by
      rw [ht, Nat.cast_one, one_mul]
      exact mul_pos (ten_zpow_pos place) hf
    rw [one_mul] at hle hpos
    rw [one_mul] at hle
    exact ⟨Nat.cast_le.1 hle, Nat.cast_pos.1 hpos⟩
  have habove : i.holds (i.value * s / t + 1) place = true := by
    have hgt : i.value * s < (i.value * s / t + 1) * t := by
      rw [mul_comm _ t]
      exact Nat.lt_mul_div_succ _ hfine'.2
    have hle : (i.value * s / t + 1) * t ≤ i.value * s + t := by
      rw [Nat.add_mul, Nat.one_mul]
      exact Nat.add_le_add_right (Nat.div_mul_le_self _ _) _
    have hlow' : i.low * s ≤ i.value * s := Nat.mul_le_mul_right s hlow.le
    have hhigh' : (i.value + 2) * s ≤ i.high * s := Nat.mul_le_mul_right s hhigh
    rw [Nat.add_mul] at hhigh'
    unfold holds
    rw [hst]
    cases i.closed <;> simp <;> omega
  unfold nearest?
  rw [hst]
  dsimp only
  rw [habove]
  split
  · next h => cases h
  · rfl
  · rfl
  · split_ifs <;> rfl

/-- A search that comes to a place with a multiple in the interval gives one. -/
theorem has_search (hsome : (i.nearest? place).isSome) :
    ∀ (count : Nat) {start : Int}, place ≤ start → start - place < count →
      i.Has (i.search count start).value := by
  intro count
  induction count with
  | zero =>
    intro start hplace hcount
    omega
  | succ count ih =>
    intro start hplace hcount
    rw [search]
    cases hn : i.nearest? start with
    | some n => exact has_of_nearest? hn
    | none =>
      have hne : place ≠ start := by
        rintro rfl
        rw [hn] at hsome
        cases hsome
      exact ih (by omega) (by omega)

/-- Powers of ten and two compare by whole powers that are close to each other. -/
theorem ten_zpow_le_two_zpow {a b g k : Int} (hb : 0 < b) (hg : g * b ≤ a * k)
    (h : ((10 : ℚ) ^ a) ^ k ≤ (2 ^ b) ^ k) : (10 : ℚ) ^ g ≤ 2 ^ k := by
  rw [← zpow_le_zpow_iff_left₀ (ten_zpow_pos g).le (two_zpow_pos k).le hb]
  calc ((10 : ℚ) ^ g) ^ b = 10 ^ (g * b) := (zpow_mul _ _ _).symm
    _ ≤ 10 ^ (a * k) := ten_zpow_le.2 hg
    _ = (10 ^ a) ^ k := zpow_mul _ _ _
    _ ≤ (2 ^ b) ^ k := h
    _ = (2 ^ k) ^ b := zpow_comm _ _ _

/-- A tenth of the power of ten that is guessed is not above the power of two: `30103 / 100000` is
as close to the logarithm of two as `59 / 196` below it and `28 / 93` above it. -/
theorem ten_zpow_guess_le {k : Int} (hlow : -1100 ≤ k) (hhigh : k ≤ 1100) :
    (10 : ℚ) ^ (k * 30103 / 100000 - 1) ≤ 2 ^ k := by
  rcases le_total 0 k with hk | hk
  · have hpowers : (10 : ℚ) ^ (59 : Int) ≤ 2 ^ (196 : Int) := by norm_num
    exact ten_zpow_le_two_zpow (by decide) (by omega)
      (zpow_le_zpow_left₀ hk (ten_zpow_pos _).le hpowers)
  · have hpowers : (2 : ℚ) ^ (93 : Int) ≤ 10 ^ (28 : Int) := by norm_num
    refine ten_zpow_le_two_zpow (a := 28) (b := 93) (by decide) (by omega) ?_
    rw [← neg_neg k, zpow_neg, zpow_neg (2 ^ (93 : Int) : ℚ)]
    exact inv_anti₀ (zpow_pos (two_zpow_pos _) _)
      (zpow_le_zpow_left₀ (by omega) (two_zpow_pos _).le hpowers)

/-- The leading place of a value is not above it. -/
theorem leadingPlace_le (hvalue : 0 < i.value) (hlow : -1100 ≤ i.value.log2 + i.unit)
    (hhigh : i.value.log2 + i.unit ≤ 1100) :
    (10 : ℚ) ^ i.leadingPlace ≤ i.value * 2 ^ i.unit := by
  have fits_iff (k : Int) : (scales i.unit k).2 ≤ i.value * (scales i.unit k).1 ↔
      (10 : ℚ) ^ k ≤ i.value * 2 ^ i.unit := by
    obtain ⟨f, hf, hs, ht⟩ := scales_eq i.unit k
    rw [← @Nat.cast_le ℚ, hs, ← one_mul (scales i.unit k).2, ht, mul_le_mul_iff_left₀ hf,
      Nat.cast_one, one_mul]
  unfold leadingPlace
  dsimp only
  split
  · next h => exact (fits_iff _).1 (of_decide_eq_true h)
  split
  · next h => exact (fits_iff _).1 (of_decide_eq_true h)
  have hlog : (2 : ℚ) ^ (i.value.log2 : Int) ≤ i.value := by
    exact_mod_cast Nat.log2_self_le hvalue.ne'
  calc (10 : ℚ) ^ ((i.value.log2 + i.unit) * 30103 / 100000 - 1)
      ≤ 2 ^ (i.value.log2 + i.unit : Int) := ten_zpow_guess_le hlow hhigh
    _ = 2 ^ (i.value.log2 : Int) * 2 ^ i.unit := two_zpow_add _ _
    _ ≤ i.value * 2 ^ i.unit := mul_le_mul_of_nonneg_right hlog (two_zpow_pos _).le

end Interval

/-! ## The digits that are written -/

theorem dropZeros_value (fuel : Nat) (d : Digits) : (dropZeros fuel d).value = d.value := by
  induction fuel generalizing d with
  | zero => rfl
  | succ fuel ih =>
    rw [dropZeros]
    split
    · next h =>
      have hdigits : (d.digits : ℚ) = (d.digits / 10 : Nat) * 10 := by
        exact_mod_cast (Nat.div_mul_cancel (Nat.dvd_of_mod_eq_zero h.1)).symm
      rw [ih, value, value, ten_zpow_add, hdigits]
      ring
    · rfl

variable {m : Nat} {e : Int}

theorem shortest_has (hfits : Double.Fits m e) (hm : 0 < m) :
    (intervalOf m e).Has (shortest m e).value := by
  obtain ⟨hmantissa, hleast, hmost, -⟩ := hfits
  have hlow : (intervalOf m e).low < (intervalOf m e).value := by
    simp only [intervalOf]
    split_ifs <;> omega
  have hhigh : (intervalOf m e).value + 1 < (intervalOf m e).high := by
    simp only [intervalOf]
    omega
  have hlog : (intervalOf m e).value.log2 < 55 := by
    rw [Nat.log2_lt (by simp only [intervalOf]; omega)]
    simp only [intervalOf]
    omega
  have hplace : (10 : ℚ) ^ (intervalOf m e).leadingPlace ≤
      (intervalOf m e).value * 2 ^ (intervalOf m e).unit := by
    apply Interval.leadingPlace_le
    · omega
    · simp only [intervalOf]
      omega
    · simp only [intervalOf] at hlog ⊢
      omega
  have hfine : (10 : ℚ) ^ ((intervalOf m e).leadingPlace - 17) ≤ 2 ^ (intervalOf m e).unit := by
    have hvalue : ((intervalOf m e).value : ℚ) ≤ 10 ^ (17 : Int) := by
      have : (intervalOf m e).value ≤ 10 ^ 17 := by
        simp only [intervalOf]
        omega
      rw [zpow_ofNat]
      exact_mod_cast this
    rw [zpow_sub₀ (by norm_num), div_le_iff₀ (ten_zpow_pos 17), mul_comm]
    exact hplace.trans (mul_le_mul_of_nonneg_right hvalue (two_zpow_pos _).le)
  rw [shortest, dropZeros_value]
  exact Interval.has_search (Interval.isSome_nearest? hlow hhigh hfine) 18 (by omega) (by omega)

/-! ## Digits that are read -/

theorem has_bounds (hfits : Double.Fits m e) (hm : 0 < m) {q : ℚ} (h : (intervalOf m e).Has q) :
    (10 : ℚ) ^ (-400 : Int) ≤ q ∧ q < 10 ^ (400 : Int) := by
  obtain ⟨hmantissa, hleast, hmost, -⟩ := hfits
  obtain ⟨hlow, hhigh⟩ := h.le
  have hpowers : (2 : ℚ) ^ (1200 : Int) < 10 ^ (400 : Int) := by
    calc (2 : ℚ) ^ (3 * 400 : Int) = (2 ^ (3 : Int)) ^ (400 : Int) := zpow_mul _ _ _
      _ < 10 ^ (400 : Int) := zpow_lt_zpow_left₀ (by decide) (by norm_num) (by norm_num)
  constructor
  · have hone : (1 : ℚ) ≤ (intervalOf m e).low := by
      have : 1 ≤ (intervalOf m e).low := by
        simp only [intervalOf]
        split_ifs <;> omega
      exact_mod_cast this
    calc (10 : ℚ) ^ (-400 : Int) ≤ 2 ^ (-1200 : Int) := by
          rw [zpow_neg, zpow_neg]
          exact inv_anti₀ (two_zpow_pos _) hpowers.le
      _ ≤ 2 ^ (intervalOf m e).unit :=
        zpow_le_zpow_right₀ one_le_two (by simp only [intervalOf]; omega)
      _ ≤ (intervalOf m e).low * 2 ^ (intervalOf m e).unit :=
        le_mul_of_one_le_left (two_zpow_pos _).le hone
      _ ≤ q := hlow
  · have hle : ((intervalOf m e).high : ℚ) ≤ 2 ^ (56 : Int) := by
      have : (intervalOf m e).high ≤ 2 ^ 56 := by
        simp only [intervalOf]
        omega
      rw [zpow_ofNat]
      exact_mod_cast this
    calc q ≤ (intervalOf m e).high * 2 ^ (intervalOf m e).unit := hhigh
      _ ≤ 2 ^ (56 : Int) * 2 ^ (intervalOf m e).unit :=
        mul_le_mul_of_nonneg_right hle (two_zpow_pos _).le
      _ = 2 ^ (56 + (intervalOf m e).unit) := (two_zpow_add _ _).symm
      _ ≤ 2 ^ (1200 : Int) := zpow_le_zpow_right₀ one_le_two (by simp only [intervalOf]; omega)
      _ < 10 ^ (400 : Int) := hpowers

theorem pos_of_has (hfits : Double.Fits m e) (hm : 0 < m) {n : Nat} {k : Int}
    (h : (intervalOf m e).Has (n * 10 ^ k)) : 0 < n := by
  rw [Nat.pos_iff_ne_zero]
  rintro rfl
  have hlow := (has_bounds hfits hm h).1
  rw [Nat.cast_zero, zero_mul] at hlow
  exact absurd (ten_zpow_pos _) (not_lt.2 hlow)

theorem length_natDigits_le_iff {n k : Nat} (hk : 0 < k) :
    (natDigits n).length ≤ k ↔ n < tenPow k := Nat.length_toDigits_le_iff (by decide) hk

/-- The numeral of a natural is as long as its leading place says. -/
theorem natDigits_length {n : Nat} (hn : 0 < n) :
    (10 : ℚ) ^ ((natDigits n).length - 1 : Int) ≤ n ∧
      (n : ℚ) < 10 ^ ((natDigits n).length : Int) := by
  have hpos : 0 < (natDigits n).length := Nat.length_toDigits_pos
  constructor
  · have hle : 10 ^ ((natDigits n).length - 1) ≤ n := by
      by_contra hlt
      rcases Nat.eq_zero_or_pos ((natDigits n).length - 1) with h0 | h0
      · rw [h0] at hlt
        omega
      · have := (length_natDigits_le_iff h0).2 (not_le.1 hlt)
        omega
    rw [← Nat.cast_one, ← Nat.cast_sub hpos, zpow_natCast]
    exact_mod_cast hle
  · have hlt : n < 10 ^ (natDigits n).length := (length_natDigits_le_iff hpos).1 le_rfl
    rw [zpow_natCast]
    exact_mod_cast hlt

end Digits

/-- Digits of the interval of a number are read as that number. -/
theorem Double.ofDecimal_of_has {negative : Bool} {digits m : Nat} {exponent e : Int}
    (hfits : Fits m e) (hm : 0 < m) (h : (Digits.intervalOf m e).Has (digits * 10 ^ exponent)) :
    ofDecimal negative digits exponent = ofMagnitude negative (patternOf m e) := by
  obtain ⟨hlow, hhigh⟩ := Digits.has_bounds hfits hm h
  have hdigits : 0 < digits := Digits.pos_of_has hfits hm h
  obtain ⟨hfrom, hbelow⟩ := Digits.natDigits_length hdigits
  have hpos := ten_zpow_pos exponent
  have htop : exponent + (natDigits digits).length ≤ 400 := by
    have : (10 : ℚ) ^ ((natDigits digits).length - 1 + exponent : Int) < 10 ^ (400 : Int) := by
      rw [ten_zpow_add]
      exact (mul_le_mul_of_nonneg_right hfrom hpos.le).trans_lt hhigh
    have := ten_zpow_lt.1 this
    omega
  have hbottom : -400 < exponent + (natDigits digits).length := by
    have : (10 : ℚ) ^ (-400 : Int) < 10 ^ ((natDigits digits).length + exponent : Int) := by
      rw [ten_zpow_add]
      exact hlow.trans_lt (mul_lt_mul_of_pos_right hbelow hpos)
    have := ten_zpow_lt.1 this
    omega
  unfold ofDecimal
  rw [if_neg hdigits.ne']
  dsimp only
  rw [if_neg (by omega), if_neg (by omega)]
  split
  · next he =>
    apply ofRatio_of_has hfits (Nat.mul_pos hdigits (tenPow_pos _)) one_pos
    rwa [Nat.cast_one, div_one, Nat.cast_mul, cast_tenPow he]
  · next he =>
    apply ofRatio_of_has hfits hdigits (tenPow_pos _)
    rwa [cast_tenPow (by omega), zpow_neg, div_inv_eq_mul]

/-- No digits are read as a NaN. -/
theorem Double.isNaN_ofDecimal (negative : Bool) (digits : Nat) (exponent : Int) :
    (ofDecimal negative digits exponent).isNaN = false := by
  unfold ofDecimal
  dsimp only
  split_ifs
  · exact isNaN_ofMagnitude (Nat.zero_le _)
  · exact isNaN_ofMagnitude le_rfl
  · exact isNaN_ofMagnitude (Nat.zero_le _)
  · exact isNaN_ofRatio _ _ _
  · exact isNaN_ofRatio _ _ _

end CloudAccess
