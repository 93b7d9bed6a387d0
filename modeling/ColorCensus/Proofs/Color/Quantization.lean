import ColorCensus.Proofs.Color.Saturation

namespace ColorCensus

open Number Binary64

variable {x y : Binary64} {p q : ℚ} {m n : ℤ}

namespace Binary64

theorem isFinite_of_toRat? (h : x.toRat? = some q) : x.isFinite = true := isFinite_iff.mpr ⟨q, h⟩

theorem unitClamp_of_toRat? (h : x.toRat? = some q) : x.unitClamp = finite (max 0 (min 1 q)) := by
  cases x with
  | finite r =>
    obtain rfl : r = q := Option.some.inj h
    rcases le_total r 0 with h0 | h0
    · rw [Color.unitClamp_of_nonpos h0, max_eq_left (le_trans (min_le_right 1 r) h0)]
    · rcases le_total r 1 with h1 | h1
      · rw [unitClamp_finite h0 h1, min_eq_right h1, max_eq_right h0]
      · rw [Color.unitClamp_of_one_le h1, min_eq_left h1, max_eq_right zero_le_one]
  | negativeZero =>
    obtain rfl : 0 = q := Option.some.inj h
    simp [unitClamp]
  | infinite s => cases h
  | nan => cases h

end Binary64

namespace Color

structure IsQuantization (channel : Binary64 → Option ℤ) : Prop where
  bounds : ∀ x q, x.toRat? = some q → ∃ n, channel x = some n ∧ 0 ≤ n ∧ n ≤ 255
  mono : ∀ x y p q m n, x.toRat? = some p → y.toRat? = some q → p ≤ q →
    channel x = some m → channel y = some n → m ≤ n
  below : ∀ x q, x.toRat? = some q → q ≤ 0 → channel x = some 0
  above : ∀ x q, x.toRat? = some q → 1 ≤ q → channel x = some 255
  byte : ∀ k : ℤ, 0 ≤ k → k ≤ 255 → channel (Binary64.ofInt k / 255) = some k
  near : ∀ x q n, x.toRat? = some q → channel x = some n →
    |(n : ℚ) - 255 * max 0 (min 1 q)| ≤ 500001 / 1000000

def rounded (q : ℚ) : ℤ := (nearest (scaled q + 1 / 2)).floor

theorem toChannel_of_toRat? (h : x.toRat? = some q) : toChannel x = some (rounded (max 0 (min 1 q))) :=
  toChannel_eq (le_max_left ..) (max_le zero_le_one (min_le_left ..)) (isFinite_of_toRat? h) (unitClamp_of_toRat? h)

theorem toChannel_eq_finite (h : x.toRat? = some q) : toChannel x = toChannel (finite q) :=
  toChannel_congr (isFinite_of_toRat? h) rfl (by rw [unitClamp_of_toRat? h, unitClamp_of_toRat? rfl])

theorem scaled_mono (h0 : 0 ≤ p) (h : p ≤ q) (h1 : q ≤ 1) : scaled p ≤ scaled q := by
  have hn : nearest (p * 255) ≤ nearest (q * 255) := nearest_mono (by positivity) (by linarith)
  have hr : roundHalfEven (nearest (p * 255) * 10 ^ 6) ≤ roundHalfEven (nearest (q * 255) * 10 ^ 6) :=
    roundHalfEven_mono (by linarith)
  refine nearest_mono (sixPlaces_bounds h0 (le_trans h h1)).1 ?_
  have hr : (roundHalfEven (nearest (p * 255) * 10 ^ 6) : ℚ) ≤ roundHalfEven (nearest (q * 255) * 10 ^ 6) := by
    exact_mod_cast hr
  exact div_le_div_of_nonneg_right hr (by norm_num)

theorem rounded_mono (h0 : 0 ≤ p) (h : p ≤ q) (h1 : q ≤ 1) : rounded p ≤ rounded q := by
  have hs := scaled_mono h0 h h1
  have hp := (scaled_bounds h0 (le_trans h h1)).1
  have hn : nearest (scaled p + 1 / 2) ≤ nearest (scaled q + 1 / 2) :=
    nearest_mono (by positivity) (by linarith)
  exact Rat.le_floor_iff.mpr (le_trans (Rat.floor_le _) hn)

section

variable (h0 : 0 ≤ q) (h1 : q ≤ 1)

include h0 h1

theorem abs_scaled_sub_le : |scaled q - 255 * q| ≤ 5000001 / 10 ^ 13 := by
  obtain ⟨hpl, hpu⟩ := product_bounds h0 h1
  obtain ⟨hsl, hsu⟩ := sixPlaces_bounds h0 h1
  -- the product, its six places and the number nearest to these are three roundings
  have hp := abs_nearest_sub_le (q := q * 255) (e := 8) (by positivity) (by norm_num; linarith) (by norm_num)
  have hr := abs_roundHalfEven_sub_le (nearest (q * 255) * 10 ^ 6)
  have hs := abs_nearest_sub_le (e := 8) hsl (by norm_num at hsu ⊢; linarith) (by norm_num)
  change |scaled q - _| ≤ _ at hs
  norm_num at hp hr hs
  rw [abs_le] at hp hr hs ⊢
  constructor <;> linarith [hp.1, hp.2, hr.1, hr.2, hs.1, hs.2]

theorem abs_rounded_sub_le : |(rounded q : ℚ) - 255 * q| ≤ 500001 / 1000000 := by
  obtain ⟨hcl, hcu⟩ := scaled_bounds h0 h1
  have hs := abs_scaled_sub_le h0 h1
  have hn := abs_nearest_sub_le (q := scaled q + 1 / 2) (e := 8) (by positivity) (by norm_num; linarith) (by norm_num)
  have hl : (rounded q : ℚ) ≤ nearest (scaled q + 1 / 2) := Rat.floor_le _
  have hu : nearest (scaled q + 1 / 2) < rounded q + 1 := by
    exact_mod_cast Rat.lt_floor_add_one (nearest (scaled q + 1 / 2))
  norm_num at hn hs
  rw [abs_le] at hn hs ⊢
  constructor <;> linarith [hn.1, hn.2, hs.1, hs.2]

end

theorem toChannel_isQuantization : IsQuantization toChannel where
  bounds x q hx := ⟨_, toChannel_of_toRat? hx, toChannel_bounds (toChannel_of_toRat? hx)⟩
  mono x y p q m n hx hy h hm hn := by
    obtain rfl := Option.some.inj ((toChannel_of_toRat? hx).symm.trans hm)
    obtain rfl := Option.some.inj ((toChannel_of_toRat? hy).symm.trans hn)
    exact rounded_mono (le_max_left ..) (max_le_max_left 0 (min_le_min_left 1 h))
      (max_le zero_le_one (min_le_left ..))
  below x q hx h := by rw [toChannel_eq_finite hx, toChannel_of_nonpos h]
  above x q hx h := by rw [toChannel_eq_finite hx, toChannel_of_one_le h]
  byte k h0 h1 := by
    obtain ⟨k, rfl⟩ := Int.eq_ofNat_of_zero_le h0
    exact toChannel_byte (by omega)
  near x q n hx hn := by
    obtain rfl := Option.some.inj ((toChannel_of_toRat? hx).symm.trans hn)
    exact abs_rounded_sub_le (le_max_left ..) (max_le zero_le_one (min_le_left ..))

end Color

end ColorCensus
