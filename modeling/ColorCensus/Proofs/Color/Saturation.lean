import ColorCensus.Proofs.Color.Numeral
import ColorCensus.Proofs.Css.Spacing

namespace ColorCensus

open Number Text CodePoint

namespace Binary64

variable {q : ℚ} {e : ℤ}

theorem nearest_neg_bounds (h : 0 < q) (hq : q ≤ (2 : ℚ) ^ e) (he : -1022 ≤ e) :
    -(2 : ℚ) ^ e ≤ nearest (-q) ∧ nearest (-q) ≤ 0 := by
  have ha : (-q).abs = q := by rw [Rat.abs_of_nonpos (by linarith), neg_neg]
  have hu : (0 : ℚ) < (2 : ℚ) ^ unitExponent q := by positivity
  have hn : nearest (-q) = roundHalfEven (-q / (2 : ℚ) ^ unitExponent q) * (2 : ℚ) ^ unitExponent q := by
    rw [nearest, if_neg (by linarith), ha]
  obtain ⟨k, hk⟩ := two_zpow_split (q := q) (g := e) (by have := unitExponent_le h hq he; omega)
  have hl : -(2 ^ k) ≤ roundHalfEven (-q / (2 : ℚ) ^ unitExponent q) := by
    apply le_roundHalfEven
    rw [le_div_iff₀ hu]
    push_cast
    rw [neg_mul, ← hk]
    linarith
  have hr : roundHalfEven (-q / (2 : ℚ) ^ unitExponent q) ≤ 0 := by
    apply roundHalfEven_le
    rw [div_le_iff₀ hu]
    push_cast
    linarith
  rw [hn, hk, ← neg_mul]
  constructor
  · refine mul_le_mul_of_nonneg_right ?_ hu.le
    exact_mod_cast hl
  · refine mul_nonpos_of_nonpos_of_nonneg ?_ hu.le
    exact_mod_cast hr

theorem ofRat_neg (h : 0 < q) (hq : q ≤ (2 : ℚ) ^ e) (he : -1022 ≤ e) (hm : e ≤ 1023) :
    ∃ r ≤ 0, ofRat (-q) = finite r := by
  obtain ⟨hl, hu⟩ := nearest_neg_bounds h hq he
  have hlt : (2 : ℚ) ^ e < (2 : ℚ) ^ (1024 : ℤ) := zpow_lt_zpow_right₀ (by norm_num) (by omega)
  have ha : (nearest (-q)).abs < (2 : ℚ) ^ (1024 : ℤ) := by
    rw [Rat.abs_of_nonpos hu]
    linarith
  exact ⟨_, hu, by rw [ofRat, if_neg (not_le.mpr ha)]⟩

end Binary64

namespace Color

open Binary64 Css

variable {x y : Binary64} {k m : ℕ} {e n : ℤ} {w digits : Text}

theorem toChannel_congr (hx : x.isFinite = true) (hy : y.isFinite = true) (h : x.unitClamp = y.unitClamp) :
    toChannel x = toChannel y := by
  rw [toChannel, toChannel, if_pos hx, if_pos hy, h]

theorem unitClamp_of_one_le {q : ℚ} (h : 1 ≤ q) : (finite q).unitClamp = finite 1 := by
  rw [unitClamp, if_neg (by linarith)]
  split
  · rfl
  · next hq => rw [le_antisymm (not_lt.mp hq) h]

theorem unitClamp_of_nonpos {q : ℚ} (h : q ≤ 0) : (finite q).unitClamp = finite 0 := by
  rw [unitClamp]
  split
  · rfl
  · next hq =>
    obtain rfl : q = 0 := le_antisymm h (not_lt.mp hq)
    rw [if_neg (by norm_num)]

theorem toChannel_finite {k : ℕ} (hk : k ≤ 1) : toChannel (finite k) = some (255 * k : ℕ) := by
  have h255 : (255 : Binary64) = finite 255 := literal_eq_finite 255 (by norm_num)
  have hdiv : Binary64.ofInt (255 * k : ℕ) / 255 = finite k := by
    have hn := ofRat_half (m := 2 * k) (by positivity) (by omega)
    push_cast at hn
    rw [ofInt_eq_finite (by positivity) (by omega), h255, div_finite _ (by norm_num)]
    push_cast
    rw [mul_div_cancel_left₀ _ (by norm_num)] at hn ⊢
    exact hn
  rw [← hdiv]
  exact toChannel_byte (by omega)

theorem toChannel_of_one_le {q : ℚ} (h : 1 ≤ q) : toChannel (finite q) = some 255 := by
  have hone : toChannel (finite 1) = some 255 := toChannel_finite le_rfl
  rw [← hone]
  exact toChannel_congr rfl rfl (by rw [unitClamp_of_one_le h, unitClamp_of_one_le le_rfl])

theorem toChannel_of_nonpos {q : ℚ} (h : q ≤ 0) : toChannel (finite q) = some 0 := by
  have hzero : toChannel (finite 0) = some 0 := toChannel_finite (Nat.zero_le 1)
  rw [← hzero]
  exact toChannel_congr rfl rfl (by rw [unitClamp_of_nonpos h, unitClamp_of_nonpos le_rfl])

theorem toChannel_whole (h : (m : ℚ) ≤ (2 : ℚ) ^ e) (hl : -1022 ≤ e) (hu : e ≤ 1023) :
    toChannel (ofRat m / 255) = some (min 255 (m : ℤ)) := by
  by_cases hm : m ≤ 255
  · have hbyte : toChannel (ofRat m / 255) = some (m : ℤ) := toChannel_byte hm
    rw [hbyte, min_eq_right (by exact_mod_cast hm)]
  · have h255 : (255 : Binary64) = finite 255 := literal_eq_finite 255 (by norm_num)
    have hpos : (0 : ℚ) ≤ m := by positivity
    -- rounding takes no number below a power of two that it has reached, so the quotient stays at one or above
    have hlarge : (256 : ℚ) ≤ nearest m := by
      have hm : (256 : ℚ) ≤ m := by exact_mod_cast not_le.mp hm
      have hn := two_zpow_le_nearest (q := m) (e := 8) (by norm_num only; exact hm) (by norm_num)
      norm_num only at hn
      exact hn
    have hone : (1 : ℚ) ≤ nearest (nearest m / 255) := by
      have hn := two_zpow_le_nearest (q := nearest m / 255) (e := 0) (by norm_num only; linarith) (by norm_num)
      rwa [zpow_zero] at hn
    have hq : nearest m / 255 ≤ (2 : ℚ) ^ e :=
      le_trans (div_le_self (by linarith) (by norm_num)) (nearest_le_two_zpow hpos h hl)
    rw [ofRat_eq_finite hpos h hl hu, h255, div_finite _ (by norm_num), ofRat_eq_finite (by positivity) hq hl hu,
      toChannel_of_one_le hone, min_eq_left (by exact_mod_cast (not_le.mp hm).le)]

theorem negativeZero_div : negativeZero / 255 = finite 0 := by
  have h255 : (255 : Binary64) = finite 255 := literal_eq_finite 255 (by norm_num)
  have hdiv : negativeZero / finite 255 = ofRat (0 / 255) := by
    change div negativeZero (finite 255) = _
    simp [div, toRat?]
  have hn := ofRat_half (m := 0) (by norm_num) (by norm_num)
  rw [Int.cast_zero, zero_div] at hn
  rw [h255, hdiv, zero_div, hn]

theorem ofSigned_true {q r : ℚ} (h : ofRat q = finite r) :
    ofSigned true q = if r = 0 then negativeZero else finite (-r) := by
  unfold ofSigned
  rw [h]

theorem toChannel_below (h : (m : ℚ) ≤ (2 : ℚ) ^ e) (hl : -1022 ≤ e) (hu : e ≤ 1023) :
    toChannel (ofSigned true m / 255) = some 0 := by
  have h255 : (255 : Binary64) = finite 255 := literal_eq_finite 255 (by norm_num)
  have hpos : (0 : ℚ) ≤ m := by positivity
  rw [ofSigned_true (ofRat_eq_finite hpos h hl hu)]
  split
  · rw [negativeZero_div]
    exact toChannel_of_nonpos le_rfl
  · next h0 =>
    have hn : 0 < nearest m := lt_of_le_of_ne (nearest_nonneg hpos) (Ne.symm h0)
    have hq : nearest m / 255 ≤ (2 : ℚ) ^ e :=
      le_trans (div_le_self hn.le (by norm_num)) (nearest_le_two_zpow hpos h hl)
    obtain ⟨r, hr, hx⟩ := ofRat_neg (by positivity) hq hl hu
    rw [h255, div_finite _ (by norm_num), neg_div, hx]
    exact toChannel_of_nonpos hr

theorem le_two_zpow {j : ℕ} (h : m < 10 ^ k) (hk : k ≤ 3 * j) : (m : ℚ) ≤ (2 : ℚ) ^ ((10 * j : ℕ) : ℤ) := by
  have hm : m ≤ 2 ^ (10 * j) := calc
    m ≤ 10 ^ k := h.le
    _ ≤ 10 ^ (3 * j) := Nat.pow_le_pow_right (by norm_num) hk
    _ = (10 ^ 3) ^ j := pow_mul 10 3 j
    _ ≤ (2 ^ 10) ^ j := Nat.pow_le_pow_left (by norm_num) j
    _ = 2 ^ (10 * j) := (pow_mul 2 10 j).symm
  rw [zpow_natCast]
  exact_mod_cast hm

theorem toBinary64_whole {negative : Bool} (h : m < 10 ^ k) (hk : k ≤ 300) :
    (⟨negative, m, 0⟩ : Decimal).toBinary64 = ofSigned negative m := by
  have hc := Decimal.digitCount_le (n := m) (k := k) (lt_of_lt_of_le h (Nat.pow_le_pow_right (by norm_num) (by omega)))
  have hm : (⟨negative, m, 0⟩ : Decimal).magnitude = Number.digitCount m := by rw [Decimal.magnitude, add_zero]
  unfold Decimal.toBinary64
  split
  · next h0 =>
    have hzero : m = 0 := h0.resolve_right (by omega)
    rw [hzero, Nat.cast_zero]
  · rw [if_neg (by omega), zpow_zero, mul_one]

theorem read_signed (hd : ∀ c ∈ digits, c.isDigit = true) :
    Decimal.read ('+' :: digits) = ⟨false, ofDecimal digits, 0⟩ ∧
      Decimal.read ('-' :: digits) = ⟨true, ofDecimal digits, 0⟩ := by
  have hplus : Decimal.readSign ('+' :: digits) = (false, digits) := rfl
  have hminus : Decimal.readSign ('-' :: digits) = (true, digits) := rfl
  rw [Decimal.read, Decimal.read, hplus, hminus]
  dsimp only
  rw [Decimal.dropWhile_isDigit hd, Decimal.takeWhile_isDigit hd]
  exact ⟨rfl, rfl⟩

theorem countP_isDigit (hd : ∀ c ∈ digits, c.isDigit = true) : digits.countP CodePoint.isDigit = digits.length :=
  List.countP_eq_length.mpr hd

theorem toChannel_numeral (h : IsNumeral w n) (hl : w.countP CodePoint.isDigit ≤ 300) :
    toChannel (numberValue w / 255) = some (max 0 (min 255 n)) := by
  have hbound {digits : Text} (hk : digits.length ≤ 300) := le_two_zpow (j := 100) (ofDecimal_lt digits) hk
  cases h with
  | unsigned h0 hd =>
    rw [countP_isDigit hd] at hl
    rw [numberValue, Decimal.read_digits hd, toBinary64_whole (ofDecimal_lt _) hl, ofSigned_false,
      toChannel_whole (hbound hl) (by norm_num) (by norm_num), max_eq_right (by omega)]
  | positive h0 hd =>
    rw [List.countP_cons_of_neg (by decide), countP_isDigit hd] at hl
    rw [numberValue, (read_signed hd).1, toBinary64_whole (ofDecimal_lt _) hl, ofSigned_false,
      toChannel_whole (hbound hl) (by norm_num) (by norm_num), max_eq_right (by omega)]
  | negative h0 hd =>
    rw [List.countP_cons_of_neg (by decide), countP_isDigit hd] at hl
    rw [numberValue, (read_signed hd).2, toBinary64_whole (ofDecimal_lt _) hl,
      toChannel_below (hbound hl) (by norm_num) (by norm_num), max_eq_left (by omega)]

end Color

end ColorCensus
