import ColorCensus.Proofs.Color.Range
import ColorCensus.Proofs.Text.Digits
import Mathlib.Tactic.FieldSimp
import Mathlib.Tactic.IntervalCases

namespace ColorCensus

open Number Binary64 Text

namespace Number

theorem decimalExponent_eq {q : ℚ} {n : ℕ} (hl : 1 / 10 ^ (n + 1) ≤ q) (hu : q < 1 / 10 ^ n) :
    decimalExponent q = -(n + 1 : ℕ) := by
  have hq : 0 < q := lt_of_lt_of_le (by positivity) hl
  have hone : q < 1 := by
    refine lt_of_lt_of_le hu ?_
    rw [div_le_one (by positivity)]
    exact_mod_cast Nat.one_le_pow n 10 (by norm_num)
  have hil : ((10 ^ n : ℤ) : ℚ) < q⁻¹ := by
    push_cast
    rwa [lt_inv_comm₀ (by positivity) hq, ← one_div]
  have hiu : q⁻¹ ≤ ((10 ^ (n + 1) : ℤ) : ℚ) := by
    push_cast
    rwa [inv_le_comm₀ hq (by positivity), ← one_div]
  have hcl : (10 ^ n : ℤ) < q⁻¹.ceil := Rat.lt_ceil_iff.mpr hil
  have hcu : q⁻¹.ceil ≤ (10 ^ (n + 1) : ℤ) := Rat.ceil_le_iff.mpr hiu
  obtain ⟨c, hc⟩ := Int.eq_ofNat_of_zero_le (le_trans (by positivity) hcl.le)
  rw [hc] at hcl hcu
  have hcl' : 10 ^ n < c := by exact_mod_cast hcl
  have hcu' : c ≤ 10 ^ (n + 1) := by exact_mod_cast hcu
  have hlen := length_natural_eq (k := n) (n := c - 1) (by omega) (by omega)
  rw [natural, List.length_map] at hlen
  rw [decimalExponent, if_neg (not_le.mpr hone), hc, Int.toNat_natCast, digitCount, hlen]

end Number

namespace Rgba

variable {k n : ℕ}

def opacityText (k : ℕ) : Text :=
  if k = 0 then "0"
  else "0." ++ copies (3 - (natural k).length) '0' ++ dropTrailing (· = '0') (natural k)

theorem leading_bounds (h0 : 0 < k) (h : k < 1000) :
    ∃ n < 3, 1000 ≤ k * 10 ^ (n + 1) ∧ k * 10 ^ n < 1000 := by
  rcases lt_or_ge k 10 with h1 | h1
  · exact ⟨2, by omega, by omega, by omega⟩
  · rcases lt_or_ge k 100 with h2 | h2
    · exact ⟨1, by omega, by omega, by omega⟩
    · exact ⟨0, by omega, by omega, by omega⟩

theorem length_natural_of_leading (hl : 1000 ≤ k * 10 ^ (n + 1)) (hu : k * 10 ^ n < 1000)
    (hn : n < 3) : (natural k).length = 3 - n := by
  interval_cases n
  · exact length_natural_eq (k := 2) (by omega) (by omega)
  · exact length_natural_eq (k := 1) (by omega) (by omega)
  · exact length_natural_eq (k := 0) (by omega) (by omega)

theorem tenth_le_nearest (hn : n < 3) : (1 : ℚ) / 10 ^ (n + 1) ≤ nearest (1 / 10 ^ (n + 1)) := by
  interval_cases n <;> decide +kernel

theorem nearest_thousandths_lower (hl : 1000 ≤ k * 10 ^ (n + 1)) (h : k < 1000) (hn : n < 3) :
    (1 : ℚ) / 10 ^ (n + 1) ≤ nearest (k / 1000) := by
  rcases hl.eq_or_lt with he | hlt
  · have hk : (k : ℚ) / 1000 = 1 / 10 ^ (n + 1) := by
      rw [div_eq_div_iff (by norm_num) (by positivity), one_mul]
      exact_mod_cast he.symm
    rw [hk]
    exact tenth_le_nearest hn
  · have hd := abs_nearest_thousandths_sub_lt h.le
    rw [abs_lt] at hd
    have hk : (1 : ℚ) / 10 ^ (n + 1) + 1 / 1000 ≤ k / 1000 := by
      interval_cases n
      · have : (101 : ℚ) ≤ k := by exact_mod_cast (by omega : 101 ≤ k)
        norm_num
        linarith
      · have : (11 : ℚ) ≤ k := by exact_mod_cast (by omega : 11 ≤ k)
        norm_num
        linarith
      · have : (2 : ℚ) ≤ k := by exact_mod_cast (by omega : 2 ≤ k)
        norm_num
        linarith
    linarith [hd.1]

theorem nearest_thousandths_upper (hu : k * 10 ^ n < 1000) (h : k < 1000) (hn : n < 3) :
    nearest (k / 1000) < (1 : ℚ) / 10 ^ n := by
  have hd := abs_nearest_thousandths_sub_lt h.le
  rw [abs_lt] at hd
  have hk : (k : ℚ) / 1000 ≤ 1 / 10 ^ n - 1 / 1000 := by
    interval_cases n
    · have : (k : ℚ) ≤ 999 := by exact_mod_cast (by omega : k ≤ 999)
      norm_num
      linarith
    · have : (k : ℚ) ≤ 99 := by exact_mod_cast (by omega : k ≤ 99)
      norm_num
      linarith
    · have : (k : ℚ) ≤ 9 := by exact_mod_cast (by omega : k ≤ 9)
      norm_num
      linarith
  linarith [hd.2]

theorem significant_thousandths (hl : 1000 ≤ k * 10 ^ (n + 1)) (hu : k * 10 ^ n < 1000)
    (h : k < 1000) (hn : n < 3) :
    significant 6 (nearest (k / 1000)) = ⟨k * 10 ^ (n + 3), -(n + 6 : ℕ)⟩ := by
  have hd := abs_nearest_thousandths_sub_lt h.le
  rw [abs_lt] at hd
  have he : decimalExponent (nearest (k / 1000)) - ((6 : ℕ) - 1 : ℤ) = -(n + 6 : ℕ) := by
    rw [decimalExponent_eq (nearest_thousandths_lower hl h hn) (nearest_thousandths_upper hu h hn)]
    push_cast
    ring
  have hr : roundHalfEven (nearest (k / 1000) / (10 : ℚ) ^ (-(n + 6 : ℕ) : ℤ)) =
      (k * 10 ^ (n + 3) : ℕ) := by
    apply roundHalfEven_eq_of_near
    rw [zpow_neg, zpow_natCast, div_inv_eq_mul, abs_lt]
    interval_cases n <;> push_cast <;> constructor <;> linarith [hd.1, hd.2]
  rw [significant, he, hr, Int.toNat_natCast]

theorem toGeneral_opacity (h : k < 1000) : (opacity k).toGeneral = opacityText k := by
  rcases Nat.eq_zero_or_pos k with rfl | h0
  · rw [opacity_eq h.le, Nat.cast_zero, zero_div, nearest_zero]
    rfl
  · obtain ⟨n, hn, hl, hu⟩ := leading_bounds h0 h
    have hlow := nearest_thousandths_lower hl h hn
    have hpos : 0 < nearest (k / 1000) := lt_of_lt_of_le (by positivity) hlow
    have hlen := length_natural_of_leading hl hu hn
    have habs : (nearest (k / 1000)).abs = nearest (k / 1000) := Rat.abs_of_nonneg hpos.le
    have hm := natural_mul_pow h0 (n + 3)
    have hlead : (⟨k * 10 ^ (n + 3), -(n + 6 : ℕ)⟩ : Digits).leading = -(n + 1 : ℕ) := by
      rw [Digits.leading, hm, List.length_append, hlen, copies, List.length_replicate]
      dsimp only
      omega
    have htext : (⟨k * 10 ^ (n + 3), -(n + 6 : ℕ)⟩ : Digits).text =
        dropTrailing (· = '0') (natural k) := by
      rw [Digits.text, hm, dropTrailing_append_copies]
    have hzeros : (-(-(n + 1 : ℕ) : ℤ) - 1).toNat = 3 - (natural k).length := by omega
    rw [opacity_eq h.le, toGeneral, if_neg hpos.ne', signed, if_neg (not_lt.mpr hpos.le), habs,
      significant_thousandths hl hu h hn, layout, hlead, htext, if_pos (by omega), positional,
      if_pos (by omega), hzeros, opacityText, if_neg h0.ne']

theorem opacityText_zero : opacityText 0 = [CodePoint.char '0'] := rfl

theorem opacityText_of_pos (h0 : 0 < k) (h : k < 1000) :
    ∃ digits : Text, digits ≠ [] ∧ digits.length ≤ 3 ∧ (∀ c ∈ digits, c.isDigit = true) ∧
      opacityText k = CodePoint.char '0' :: CodePoint.char '.' :: digits ∧ ofDecimal digits * 10 ^ (3 - digits.length) = k := by
  obtain ⟨n, hn, hl, hu⟩ := leading_bounds h0 h
  have hlen := length_natural_of_leading hl hu hn
  obtain ⟨z, hz⟩ := dropTrailing_spec (CodePoint.char '0') (natural k)
  generalize hd : dropTrailing (· = CodePoint.char '0') (natural k) = d at hz
  have hlz := congrArg List.length hz
  rw [hlen, List.length_append, copies, List.length_replicate] at hlz
  have hk : ofDecimal d * 10 ^ z = k := by
    rw [← ofDecimal_natural k, hz, ofDecimal_append, ofDecimal_zeros, copies, List.length_replicate,
      Nat.add_zero]
  have hne : d ≠ [] := by
    rintro rfl
    rw [show ofDecimal [] = 0 from rfl, zero_mul] at hk
    omega
  refine ⟨copies (3 - (natural k).length) '0' ++ d, by simp [hne], ?_, ?_, ?_, ?_⟩
  · rw [List.length_append, copies, List.length_replicate]
    omega
  · intro c hc
    rcases List.mem_append.mp hc with hc | hc
    · rw [List.eq_of_mem_replicate hc]
      rfl
    · exact isDigit_of_mem_natural (n := k) (hz ▸ List.mem_append_left _ hc)
  · rw [opacityText, if_neg h0.ne', hd]
    rfl
  · have hrest : 3 - (copies (3 - (natural k).length) (CodePoint.char '0') ++ d).length = z := by
      rw [List.length_append, copies, List.length_replicate]
      omega
    rw [hrest, ofDecimal_append, ofDecimal_zeros, zero_mul, Nat.zero_add, hk]

end Rgba

namespace Decimal

variable {s : Text}

theorem takeWhile_isDigit (h : ∀ c ∈ s, c.isDigit = true) : s.takeWhile CodePoint.isDigit = s := by
  simpa using List.takeWhile_eq_self_iff.mpr h

theorem dropWhile_isDigit (h : ∀ c ∈ s, c.isDigit = true) : s.dropWhile CodePoint.isDigit = [] := by
  exact List.dropWhile_eq_nil_iff.mpr h

theorem readSign_digits (h : ∀ c ∈ s, c.isDigit = true) : readSign s = (false, s) := by
  unfold readSign
  split
  · exact absurd (h '-' (by simp)) (by decide)
  · exact absurd (h '+' (by simp)) (by decide)
  · rfl

theorem read_digits (h : ∀ c ∈ s, c.isDigit = true) : read s = ⟨false, ofDecimal s, 0⟩ := by
  rw [read, readSign_digits h]
  dsimp only
  rw [dropWhile_isDigit h, takeWhile_isDigit h]
  rfl

theorem read_fraction (h : ∀ c ∈ s, c.isDigit = true) :
    read ('0' :: '.' :: s) = ⟨false, ofDecimal s, -s.length⟩ := by
  have h0 : ofDecimal ([CodePoint.char '0'] ++ s) = ofDecimal s := by
    rw [ofDecimal_append, show ofDecimal [CodePoint.char '0'] = 0 from by decide, zero_mul, zero_add]
  have hr : read ('0' :: '.' :: s) = ⟨false, ofDecimal ([CodePoint.char '0'] ++ s.takeWhile CodePoint.isDigit),
      readExponent (s.dropWhile CodePoint.isDigit) - (s.takeWhile CodePoint.isDigit).length⟩ := rfl
  rw [hr, takeWhile_isDigit h, dropWhile_isDigit h, h0, readExponent, zero_sub]

theorem toBinary64_eq {d : Decimal} (hs : d.negative = false) (hl : -330 ≤ d.magnitude)
    (hu : d.magnitude ≤ 310) : d.toBinary64 = ofRat (d.digits * (10 : ℚ) ^ d.exponent) := by
  unfold toBinary64
  split
  · next h =>
    have h0 : d.digits = 0 := by
      rcases h with h | h
      · exact h
      · omega
    rw [hs, ofSigned_false, h0, Nat.cast_zero, zero_mul]
  · rw [if_neg (by omega), hs, ofSigned_false]

theorem digitCount_le {n k : ℕ} (h : n < 10 ^ (k + 1)) : Number.digitCount n ≤ k + 1 := by
  have hl := (length_natural_le_iff (Nat.succ_pos k)).mpr h
  rwa [natural, List.length_map] at hl

end Decimal

namespace Color

open Rgba

variable {k : ℕ}

theorem numberValue_natural (h : k ≤ 255) : numberValue (natural k) = .ofInt k := by
  have hc := Decimal.digitCount_le (n := k) (k := 2) (by omega)
  have hm : (⟨false, k, 0⟩ : Decimal).magnitude = Number.digitCount k := by
    rw [Decimal.magnitude, add_zero]
  rw [numberValue, Decimal.read_digits fun c => isDigit_of_mem_natural, ofDecimal_natural,
    Decimal.toBinary64_eq rfl (by omega) (by omega), zpow_zero, mul_one, Binary64.ofInt, Int.cast_natCast]

theorem numberValue_opacityText (h : k < 1000) : numberValue (opacityText k) = opacity k := by
  rcases Nat.eq_zero_or_pos k with rfl | h0
  · rw [opacity_zero, opacityText_zero, ← natural_zero, numberValue_natural (by norm_num)]
    rfl
  · obtain ⟨s, -, hl, hs, ht, hk⟩ := opacityText_of_pos h0 h
    have hlt : ofDecimal s < 10 ^ 3 := by
      refine lt_of_le_of_lt ?_ h
      rw [← hk]
      exact Nat.le_mul_of_pos_right _ (by positivity)
    have hc := Decimal.digitCount_le (k := 2) hlt
    have hm : (⟨false, ofDecimal s, -s.length⟩ : Decimal).magnitude =
        Number.digitCount (ofDecimal s) - s.length := by
      rw [Decimal.magnitude, sub_eq_add_neg]
    have hq : (ofDecimal s : ℚ) * (10 : ℚ) ^ (-s.length : ℤ) = k / 1000 := by
      have hp : (10 : ℚ) ^ (3 - s.length) * 10 ^ s.length = 1000 := by
        rw [← pow_add, Nat.sub_add_cancel hl]
        norm_num
      rw [zpow_neg, zpow_natCast, ← hk, ← div_eq_mul_inv, div_eq_div_iff (by positivity) (by norm_num)]
      push_cast
      rw [mul_assoc, hp]
    rw [numberValue, ht, Decimal.read_fraction hs, Decimal.toBinary64_eq rfl (by omega) (by omega), hq,
      opacity]

end Color

end ColorCensus
