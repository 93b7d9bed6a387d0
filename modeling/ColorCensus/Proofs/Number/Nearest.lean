import ColorCensus.Number.Binary64
import Mathlib.Algebra.Order.Field.Power
import Mathlib.Data.Rat.Floor
import Mathlib.Tactic.Linarith
import Mathlib.Tactic.Positivity

namespace ColorCensus

namespace Number

variable {p q : ℚ} {n : ℤ}

theorem roundHalfEven_le (h : q ≤ n) : roundHalfEven q ≤ n := by
  have hfloor : (q.floor : ℚ) ≤ n := le_trans (Rat.floor_le q) h
  have hle : q.floor ≤ n := by exact_mod_cast hfloor
  rcases eq_or_lt_of_le hle with he | hlt
  · have hq : q - q.floor < 1 / 2 := by
      have : (q.floor : ℚ) = n := by exact_mod_cast he
      linarith
    rw [roundHalfEven, if_pos hq]
    exact hle
  · rcases roundHalfEven_eq_or q with hr | hr <;> omega

theorem le_roundHalfEven (h : (n : ℚ) ≤ q) : n ≤ roundHalfEven q := by
  have hn : n ≤ q.floor := Rat.le_floor_iff.mpr h
  rcases roundHalfEven_eq_or q with hr | hr <;> omega

theorem abs_roundHalfEven_sub_le (q : ℚ) : |(roundHalfEven q : ℚ) - q| ≤ 1 / 2 := by
  have hl := Rat.floor_le q
  have hu := Rat.lt_floor_add_one q
  push_cast at hu
  rw [abs_le]
  unfold roundHalfEven
  split
  · constructor <;> linarith
  · split
    · push_cast
      constructor <;> linarith
    · have he : q - q.floor = 1 / 2 := by linarith
      split
      · constructor <;> linarith
      · push_cast
        constructor <;> linarith

theorem roundHalfEven_eq_of_near (h : |q - n| < 1 / 2) : roundHalfEven q = n := by
  have hr := abs_roundHalfEven_sub_le q
  rw [abs_lt] at h
  rw [abs_le] at hr
  have hu : (roundHalfEven q : ℚ) < (n + 1 : ℤ) := by
    push_cast
    linarith [h.2, hr.2]
  have hl : ((n - 1 : ℤ) : ℚ) < roundHalfEven q := by
    push_cast
    linarith [h.1, hr.1]
  have hu' : roundHalfEven q < n + 1 := by exact_mod_cast hu
  have hl' : n - 1 < roundHalfEven q := by exact_mod_cast hl
  omega

theorem roundHalfEven_mono (h : p ≤ q) : roundHalfEven p ≤ roundHalfEven q := by
  by_contra hlt
  have hp := abs_le.mp (abs_roundHalfEven_sub_le p)
  have hq := abs_le.mp (abs_roundHalfEven_sub_le q)
  have hstep : (roundHalfEven q : ℚ) + 1 ≤ roundHalfEven p := by
    exact_mod_cast Int.add_one_le_iff.mpr (not_le.mp hlt)
  -- both errors are then half a unit, and the two numbers are one
  obtain rfl : p = q := by linarith
  exact hlt le_rfl

theorem eq_natAbs_div (h : 0 ≤ q) : q = q.num.natAbs / q.den := by
  have hpos : (q.num.natAbs : ℤ) = q.num := Int.natAbs_of_nonneg (Rat.num_nonneg.mpr h)
  have hcast : (q.num.natAbs : ℚ) = (q.num : ℚ) := by
    simpa only [Int.cast_natCast] using congrArg (fun z : ℤ => (z : ℚ)) hpos
  rw [hcast, Rat.num_div_den]

theorem two_zpow_binaryExponent_le (h : 0 < q) : (2 : ℚ) ^ binaryExponent q ≤ q := by
  unfold binaryExponent
  dsimp only
  split
  · assumption
  · have hn : q.num.natAbs ≠ 0 := by
      simpa using ne_of_gt h
    have hnum : (2 : ℚ) ^ (q.num.natAbs.log2 : ℤ) ≤ q.num.natAbs := by
      rw [zpow_natCast]
      exact_mod_cast Nat.log2_self_le hn
    have hden : (q.den : ℚ) ≤ (2 : ℚ) ^ ((q.den.log2 : ℤ) + 1) := by
      have : q.den < 2 ^ (q.den.log2 + 1) := Nat.lt_log2_self
      exact_mod_cast this.le
    calc (2 : ℚ) ^ ((q.num.natAbs.log2 : ℤ) - q.den.log2 - 1)
        = (2 : ℚ) ^ (q.num.natAbs.log2 : ℤ) / (2 : ℚ) ^ ((q.den.log2 : ℤ) + 1) := by
          rw [← zpow_sub₀ (by norm_num)]
          congr 1
          ring
      _ ≤ q.num.natAbs / q.den := by
          have hd : (0 : ℚ) < q.den := by exact_mod_cast q.den_pos
          gcongr
      _ = q := (eq_natAbs_div h.le).symm

theorem lt_two_zpow_binaryExponent (h : 0 < q) : q < (2 : ℚ) ^ (binaryExponent q + 1) := by
  unfold binaryExponent
  dsimp only
  split
  · have hn : (q.num.natAbs : ℚ) < (2 : ℚ) ^ ((q.num.natAbs.log2 : ℤ) + 1) := by
      have : q.num.natAbs < 2 ^ (q.num.natAbs.log2 + 1) := Nat.lt_log2_self
      exact_mod_cast this
    have hd : (2 : ℚ) ^ (q.den.log2 : ℤ) ≤ q.den := by
      rw [zpow_natCast]
      exact_mod_cast Nat.log2_self_le q.den_nz
    calc q = q.num.natAbs / q.den := eq_natAbs_div h.le
      _ < (2 : ℚ) ^ ((q.num.natAbs.log2 : ℤ) + 1) / (2 : ℚ) ^ (q.den.log2 : ℤ) :=
          div_lt_div₀ hn hd (by positivity) (by positivity)
      _ = (2 : ℚ) ^ ((q.num.natAbs.log2 : ℤ) - q.den.log2 + 1) := by
          rw [← zpow_sub₀ (by norm_num)]
          congr 1
          ring
  · next hlt => simpa using not_le.mp hlt

theorem binaryExponent_le {e : ℤ} (h : 0 < q) (hq : q ≤ (2 : ℚ) ^ e) : binaryExponent q ≤ e :=
  (zpow_le_zpow_iff_right₀ (by norm_num : (1 : ℚ) < 2)).mp
    (le_trans (two_zpow_binaryExponent_le h) hq)

theorem binaryExponent_mono (h0 : 0 < p) (h : p ≤ q) : binaryExponent p ≤ binaryExponent q := by
  have hlt : (2 : ℚ) ^ binaryExponent p < (2 : ℚ) ^ (binaryExponent q + 1) :=
    lt_of_le_of_lt (le_trans (two_zpow_binaryExponent_le h0) h)
      (lt_two_zpow_binaryExponent (lt_of_lt_of_le h0 h))
  exact Int.lt_add_one_iff.mp ((zpow_lt_zpow_iff_right₀ (by norm_num : (1 : ℚ) < 2)).mp hlt)

end Number

namespace Binary64

open Number

variable {p q : ℚ} {m g e : ℤ}

theorem unitExponent_le (h : 0 < q) (hq : q ≤ (2 : ℚ) ^ e) (he : -1022 ≤ e) :
    unitExponent q ≤ e - 52 := by
  have hb := binaryExponent_le h hq
  rw [unitExponent]
  omega

theorem nearest_of_pos (h : 0 < q) :
    nearest q = roundHalfEven (q / (2 : ℚ) ^ unitExponent q) * (2 : ℚ) ^ unitExponent q := by
  have ha : q.abs = q := Rat.abs_of_nonneg h.le
  rw [nearest, if_neg h.ne', ha]

theorem two_zpow_split (h : unitExponent q ≤ g) :
    ∃ k : ℕ, (2 : ℚ) ^ g = 2 ^ k * (2 : ℚ) ^ unitExponent q := by
  refine ⟨(g - unitExponent q).toNat, ?_⟩
  rw [← zpow_natCast, ← zpow_add₀ (by norm_num)]
  congr 1
  omega

theorem nearest_le_grid (h : 0 < q) (hg : unitExponent q ≤ g) (hq : q ≤ m * (2 : ℚ) ^ g) :
    nearest q ≤ m * (2 : ℚ) ^ g := by
  obtain ⟨k, hk⟩ := two_zpow_split hg
  have hu : (0 : ℚ) < (2 : ℚ) ^ unitExponent q := by positivity
  have hr : roundHalfEven (q / (2 : ℚ) ^ unitExponent q) ≤ m * 2 ^ k := by
    apply roundHalfEven_le
    rw [div_le_iff₀ hu]
    push_cast
    rw [mul_assoc, ← hk]
    exact hq
  rw [nearest_of_pos h, hk, ← mul_assoc]
  refine mul_le_mul_of_nonneg_right ?_ hu.le
  exact_mod_cast hr

theorem grid_le_nearest (h : 0 < q) (hg : unitExponent q ≤ g) (hq : m * (2 : ℚ) ^ g ≤ q) :
    m * (2 : ℚ) ^ g ≤ nearest q := by
  obtain ⟨k, hk⟩ := two_zpow_split hg
  have hu : (0 : ℚ) < (2 : ℚ) ^ unitExponent q := by positivity
  have hr : m * 2 ^ k ≤ roundHalfEven (q / (2 : ℚ) ^ unitExponent q) := by
    apply le_roundHalfEven
    rw [le_div_iff₀ hu]
    push_cast
    rw [mul_assoc, ← hk]
    exact hq
  rw [nearest_of_pos h, hk, ← mul_assoc]
  refine mul_le_mul_of_nonneg_right ?_ hu.le
  exact_mod_cast hr

theorem nearest_grid (h : 0 < q) (hg : unitExponent q ≤ g) (hq : q = m * (2 : ℚ) ^ g) :
    nearest q = q := by
  have hl := nearest_le_grid h hg hq.le
  have hu := grid_le_nearest h hg hq.ge
  rw [← hq] at hl hu
  exact le_antisymm hl hu

theorem nearest_nonneg (h : 0 ≤ q) : 0 ≤ nearest q := by
  rcases h.eq_or_lt with rfl | h
  · exact (nearest_zero).ge
  · simpa using grid_le_nearest (m := 0) h le_rfl (by simpa using h.le)

theorem nearest_le_two_zpow (h : 0 ≤ q) (hq : q ≤ (2 : ℚ) ^ e) (he : -1022 ≤ e) :
    nearest q ≤ (2 : ℚ) ^ e := by
  rcases h.eq_or_lt with rfl | h
  · rw [nearest_zero]
    positivity
  · have hu := unitExponent_le h hq he
    simpa using nearest_le_grid (m := 1) h (by omega : unitExponent q ≤ e) (by simpa using hq)

theorem two_zpow_le_nearest (h : (2 : ℚ) ^ e ≤ q) (he : -1074 ≤ e) : (2 : ℚ) ^ e ≤ nearest q := by
  have hq : 0 < q := lt_of_lt_of_le (by positivity) h
  by_cases hu : unitExponent q ≤ e
  · simpa using grid_le_nearest (m := 1) hq hu (by simpa using h)
  · -- the unit in the last place is itself above the power and not above the number
    have hle : (2 : ℚ) ^ unitExponent q ≤ q := by
      refine le_trans (zpow_le_zpow_right₀ (by norm_num) ?_) (two_zpow_binaryExponent_le hq)
      rw [unitExponent] at hu ⊢
      omega
    have hn : (2 : ℚ) ^ unitExponent q ≤ nearest q := by
      simpa using grid_le_nearest (m := 1) hq le_rfl (by simpa using hle)
    exact le_trans (zpow_le_zpow_right₀ (by norm_num) (by omega)) hn

theorem nearest_mono (h0 : 0 ≤ p) (h : p ≤ q) : nearest p ≤ nearest q := by
  rcases h0.eq_or_lt with rfl | h0
  · rw [nearest_zero]
    exact nearest_nonneg h
  · have hq : 0 < q := lt_of_lt_of_le h0 h
    have hb := binaryExponent_mono h0 h
    by_cases hu : unitExponent p = unitExponent q
    · have hr := roundHalfEven_mono (div_le_div_of_nonneg_right h
        (by positivity : (0 : ℚ) ≤ (2 : ℚ) ^ unitExponent q))
      rw [nearest_of_pos h0, nearest_of_pos hq, hu]
      refine mul_le_mul_of_nonneg_right ?_ (by positivity)
      exact_mod_cast hr
    · -- units that differ have a power of two between the numbers
      rw [unitExponent, unitExponent] at hu
      have hp : p ≤ (2 : ℚ) ^ binaryExponent q :=
        le_trans (lt_two_zpow_binaryExponent h0).le (zpow_le_zpow_right₀ (by norm_num) (by omega))
      calc nearest p ≤ (2 : ℚ) ^ binaryExponent q := nearest_le_two_zpow h0.le hp (by omega)
        _ ≤ nearest q := two_zpow_le_nearest (two_zpow_binaryExponent_le hq) (by omega)

theorem abs_nearest_sub_le (h : 0 ≤ q) (hq : q ≤ (2 : ℚ) ^ e) (he : -1022 ≤ e) :
    |nearest q - q| ≤ (2 : ℚ) ^ (e - 53) := by
  rcases h.eq_or_lt with rfl | h
  · rw [nearest_zero, sub_zero, abs_zero]
    positivity
  · have hu : (0 : ℚ) < (2 : ℚ) ^ unitExponent q := by positivity
    have hr := abs_roundHalfEven_sub_le (q / (2 : ℚ) ^ unitExponent q)
    have hm : nearest q - q = (roundHalfEven (q / (2 : ℚ) ^ unitExponent q) -
        q / (2 : ℚ) ^ unitExponent q) * (2 : ℚ) ^ unitExponent q := by
      rw [nearest_of_pos h, sub_mul, div_mul_cancel₀ _ hu.ne']
    calc |nearest q - q|
        ≤ 1 / 2 * (2 : ℚ) ^ unitExponent q := by
          rw [hm, abs_mul, abs_of_pos hu]
          exact mul_le_mul_of_nonneg_right hr hu.le
      _ ≤ 1 / 2 * (2 : ℚ) ^ (e - 52) := by
          have hle := zpow_le_zpow_right₀ (by norm_num : (1 : ℚ) ≤ 2) (unitExponent_le h hq he)
          linarith
      _ = (2 : ℚ) ^ (e - 53) := by
          rw [show e - 52 = (e - 53) + 1 by ring, zpow_add_one₀ (by norm_num)]
          ring

theorem ofRat_eq_finite (h : 0 ≤ q) (hq : q ≤ (2 : ℚ) ^ e) (he : -1022 ≤ e) (hm : e ≤ 1023) :
    ofRat q = finite (nearest q) := by
  have hn : (nearest q).abs = nearest q := Rat.abs_of_nonneg (nearest_nonneg h)
  have hle := nearest_le_two_zpow h hq he
  have hlt : (2 : ℚ) ^ e < (2 : ℚ) ^ (1024 : ℤ) :=
    zpow_lt_zpow_right₀ (by norm_num) (by omega)
  rw [ofRat, hn, if_neg (not_le.mpr (lt_of_le_of_lt hle hlt))]

theorem unitExponent_le_half (h : 0 < q) (hq : q ≤ (m : ℚ) / 2) (hm : m ≤ 2 ^ 51) :
    unitExponent q ≤ -1 := by
  have hb : q ≤ (2 : ℚ) ^ (50 : ℤ) := by
    have : (m : ℚ) ≤ 2 ^ 51 := by exact_mod_cast hm
    norm_num at this ⊢
    linarith
  exact le_trans (unitExponent_le h hb (by norm_num)) (by norm_num)

theorem half_eq_grid (m : ℤ) : (m : ℚ) / 2 = m * (2 : ℚ) ^ (-1 : ℤ) := by
  rw [zpow_neg_one, div_eq_mul_inv]

theorem nearest_le_half (h : 0 ≤ q) (hq : q ≤ (m : ℚ) / 2) (hm : m ≤ 2 ^ 51) :
    nearest q ≤ (m : ℚ) / 2 := by
  rcases h.eq_or_lt with rfl | h
  · rwa [nearest_zero]
  · rw [half_eq_grid] at hq ⊢
    exact nearest_le_grid h (unitExponent_le_half h (half_eq_grid m ▸ hq) hm) hq

theorem nearest_half (h : 0 ≤ m) (hm : m ≤ 2 ^ 51) : nearest ((m : ℚ) / 2) = (m : ℚ) / 2 := by
  rcases h.eq_or_lt with rfl | h
  · simp [nearest_zero]
  · have hp : (0 : ℚ) < (m : ℚ) / 2 := by
      have : (0 : ℚ) < m := by exact_mod_cast h
      linarith
    exact nearest_grid hp (unitExponent_le_half hp le_rfl hm) (half_eq_grid m)

theorem ofRat_half (h : 0 ≤ m) (hm : m ≤ 2 ^ 51) : ofRat ((m : ℚ) / 2) = finite ((m : ℚ) / 2) := by
  have hb : (m : ℚ) / 2 ≤ (2 : ℚ) ^ (51 : ℤ) := by
    have hm' : (m : ℚ) ≤ 2 ^ 51 := by exact_mod_cast hm
    norm_num at hm' ⊢
    linarith
  have h0 : (0 : ℚ) ≤ (m : ℚ) / 2 := by
    have : (0 : ℚ) ≤ m := by exact_mod_cast h
    linarith
  rw [ofRat_eq_finite h0 hb (by norm_num) (by norm_num), nearest_half h hm]

theorem ofInt_eq_finite (h : 0 ≤ m) (hm : m ≤ 2 ^ 50) : ofInt m = finite m := by
  have := ofRat_half (m := 2 * m) (by omega) (by omega)
  push_cast at this
  rwa [mul_div_cancel_left₀ _ (by norm_num : (2 : ℚ) ≠ 0)] at this

theorem literal_eq_finite (n : ℕ) (h : n ≤ 2 ^ 50) : (OfNat.ofNat n : Binary64) = finite n := by
  have hn := ofInt_eq_finite (m := n) (by positivity) (by exact_mod_cast h)
  rwa [Int.cast_natCast] at hn

theorem ofSigned_false (q : ℚ) : ofSigned false q = ofRat q := by
  unfold ofSigned
  generalize ofRat q = x
  cases x <;> rfl

theorem mul_finite (p q : ℚ) : finite p * finite q = ofRat (p * q) := by
  change mul (finite p) (finite q) = _
  simp only [mul, toRat?]

theorem add_finite (p q : ℚ) : finite p + finite q = ofRat (p + q) := by
  change add (finite p) (finite q) = _
  unfold add
  dsimp only [toRat?, Option.getD_some]

theorem div_finite (p : ℚ) (h : q ≠ 0) : finite p / finite q = ofRat (p / q) := by
  change div (finite p) (finite q) = _
  simp only [div, toRat?, if_neg h]

theorem round_finite (h : 0 ≤ q) (places : ℕ) :
    (finite q).round places = ofRat (roundHalfEven (q * 10 ^ places) / 10 ^ places) := by
  have hr : (0 : ℚ) ≤ roundHalfEven (q * 10 ^ places) / 10 ^ places := by
    have : 0 ≤ roundHalfEven (q * 10 ^ places) := le_roundHalfEven (by push_cast; positivity)
    have : (0 : ℚ) ≤ roundHalfEven (q * 10 ^ places) := by exact_mod_cast this
    positivity
  rw [round]
  rw [Rat.abs_of_nonneg hr, decide_eq_false (not_lt.mpr h), ofSigned_false]

theorem unitClamp_bounds (x : Binary64) : ∃ q, x.unitClamp = finite q ∧ 0 ≤ q ∧ q ≤ 1 := by
  cases x with
  | finite q =>
    refine ⟨_, rfl, ?_, ?_⟩
    · split
      · exact le_rfl
      · split
        · exact zero_le_one
        · linarith
    · split
      · exact zero_le_one
      · split
        · exact le_rfl
        · linarith
  | negativeZero => exact ⟨0, rfl, le_rfl, zero_le_one⟩
  | infinite s => cases s <;> exact ⟨_, rfl, by simp, by simp⟩
  | nan => exact ⟨0, rfl, le_rfl, zero_le_one⟩

theorem unitClamp_finite (h : 0 ≤ q) (hq : q ≤ 1) : (finite q).unitClamp = finite q := by
  rw [unitClamp, if_neg (not_lt.mpr h), if_neg (not_lt.mpr hq)]

end Binary64

end ColorCensus
