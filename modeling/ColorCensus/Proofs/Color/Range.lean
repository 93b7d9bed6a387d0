import ColorCensus.Color.Canonical
import ColorCensus.Proofs.Number.Nearest

namespace ColorCensus

open Number Binary64

def Rgba.opacity (k : ℕ) : Binary64 := .ofRat (k / 1000)

structure Rgba.IsCanonical (c : Rgba) : Prop where
  red : 0 ≤ c.red ∧ c.red ≤ 255
  green : 0 ≤ c.green ∧ c.green ≤ 255
  blue : 0 ≤ c.blue ∧ c.blue ≤ 255
  alpha : ∃ k ≤ 1000, c.alpha = opacity k

namespace Rgba

variable {k : ℕ}

theorem IsCanonical.exists_bytes {c : Rgba} (h : c.IsCanonical) :
    ∃ red green blue k : ℕ, red ≤ 255 ∧ green ≤ 255 ∧ blue ≤ 255 ∧ k ≤ 1000 ∧
      c = ⟨red, green, blue, opacity k⟩ := by
  obtain ⟨⟨hr, hr'⟩, ⟨hg, hg'⟩, ⟨hb, hb'⟩, k, hk, ha⟩ := h
  obtain ⟨red, green, blue, alpha⟩ := c
  dsimp only at hr hr' hg hg' hb hb' ha
  lift red to ℕ using hr
  lift green to ℕ using hg
  lift blue to ℕ using hb
  exact ⟨red, green, blue, k, by omega, by omega, by omega, hk, by rw [ha]⟩

theorem thousandths_bounds (h : k ≤ 1000) : (0 : ℚ) ≤ k / 1000 ∧ (k : ℚ) / 1000 ≤ 1 := by
  have hk : (k : ℚ) ≤ 1000 := by exact_mod_cast h
  exact ⟨by positivity, by linarith⟩

theorem opacity_eq (h : k ≤ 1000) : opacity k = finite (nearest (k / 1000)) := by
  obtain ⟨h0, h1⟩ := thousandths_bounds h
  exact ofRat_eq_finite (e := 0) h0 (by simpa using h1) (by norm_num) (by norm_num)

theorem nearest_thousandths_bounds (h : k ≤ 1000) :
    0 ≤ nearest (k / 1000) ∧ nearest (k / 1000) ≤ 1 := by
  obtain ⟨h0, h1⟩ := thousandths_bounds h
  refine ⟨nearest_nonneg h0, ?_⟩
  simpa using nearest_le_two_zpow (e := 0) h0 (by simpa using h1) (by norm_num)

theorem abs_nearest_thousandths_sub_lt (h : k ≤ 1000) :
    |nearest (k / 1000) - k / 1000| < 1 / 10 ^ 12 := by
  obtain ⟨h0, h1⟩ := thousandths_bounds h
  have hn := abs_nearest_sub_le (e := 0) h0 (by simpa using h1) (by norm_num)
  refine lt_of_le_of_lt hn ?_
  norm_num

theorem unitClamp_opacity (h : k ≤ 1000) : (opacity k).unitClamp = opacity k := by
  obtain ⟨h0, h1⟩ := nearest_thousandths_bounds h
  rw [opacity_eq h, unitClamp_finite h0 h1]

theorem round_opacity (h : k ≤ 1000) : (opacity k).round alphaPlaces = opacity k := by
  have hd := abs_nearest_thousandths_sub_lt h
  have hr : roundHalfEven (nearest (k / 1000) * 10 ^ 3) = k := by
    apply roundHalfEven_eq_of_near
    rw [abs_lt] at hd ⊢
    push_cast
    constructor <;> linarith [hd.1, hd.2]
  rw [opacity_eq h, alphaPlaces, round_finite (nearest_thousandths_bounds h).1, hr, ← opacity_eq h,
    opacity]
  norm_num

theorem round_unitClamp (x : Binary64) : ∃ k ≤ 1000, x.unitClamp.round alphaPlaces = opacity k := by
  obtain ⟨q, hx, h0, h1⟩ := unitClamp_bounds x
  have hl : (0 : ℤ) ≤ roundHalfEven (q * 10 ^ 3) := le_roundHalfEven (by push_cast; positivity)
  have hu : roundHalfEven (q * 10 ^ 3) ≤ (1000 : ℤ) := roundHalfEven_le (by push_cast; linarith)
  obtain ⟨k, hk⟩ := Int.eq_ofNat_of_zero_le hl
  refine ⟨k, by omega, ?_⟩
  rw [hx, alphaPlaces, round_finite h0, hk, opacity]
  norm_num

theorem opacity_zero : opacity 0 = 0 := by
  have h0 := literal_eq_finite 0 (by norm_num)
  have hz := opacity_eq (Nat.zero_le 1000)
  rw [Nat.cast_zero, zero_div, nearest_zero] at hz
  rw [hz, h0, Nat.cast_zero]

theorem opacity_thousand : opacity 1000 = 1 := by
  have h1 := literal_eq_finite 1 (by norm_num)
  have hq : ((1000 : ℕ) : ℚ) / 1000 = ((2 : ℤ) : ℚ) / 2 := by norm_num
  rw [opacity_eq le_rfl, hq, nearest_half (by norm_num) (by norm_num), h1]
  norm_num

end Rgba

namespace Color

open Rgba

variable {n : ℤ}

theorem half_eq : Fractions.half = finite (1 / 2) := by
  have h1 := literal_eq_finite 1 (by norm_num)
  have h2 := literal_eq_finite 2 (by norm_num)
  have hh := ofRat_half (m := 1) (by norm_num) (by norm_num)
  rw [Fractions.half, h1, h2, div_finite _ (by norm_num), Nat.cast_one, Nat.cast_ofNat]
  simpa only [Int.cast_one] using hh

def scaled (q : ℚ) : ℚ := nearest (roundHalfEven (nearest (q * 255) * 10 ^ 6) / 10 ^ 6)

theorem ofRat_of_le_256 {q : ℚ} (h0 : 0 ≤ q) (h : q ≤ 256) : ofRat q = finite (nearest q) :=
  ofRat_eq_finite (e := 8) h0 (by norm_num; exact h) (by norm_num) (by norm_num)

theorem nearest_le_255 {q : ℚ} (h0 : 0 ≤ q) (h : q ≤ 255) : nearest q ≤ 255 := by
  have hn := nearest_le_half (m := 510) h0 (by norm_num; exact h) (by norm_num)
  norm_num at hn
  exact hn

section

variable {q : ℚ} (h0 : 0 ≤ q) (h1 : q ≤ 1)

include h0 h1

theorem product_bounds : 0 ≤ nearest (q * 255) ∧ nearest (q * 255) ≤ 255 :=
  ⟨nearest_nonneg (by positivity), nearest_le_255 (by positivity) (by linarith)⟩

theorem sixPlaces_bounds :
    (0 : ℚ) ≤ roundHalfEven (nearest (q * 255) * 10 ^ 6) / 10 ^ 6 ∧
      (roundHalfEven (nearest (q * 255) * 10 ^ 6) : ℚ) / 10 ^ 6 ≤ 255 := by
  obtain ⟨hl, hu⟩ := product_bounds h0 h1
  have hrl : (0 : ℤ) ≤ roundHalfEven (nearest (q * 255) * 10 ^ 6) :=
    le_roundHalfEven (by push_cast; positivity)
  have hru : roundHalfEven (nearest (q * 255) * 10 ^ 6) ≤ (255 * 10 ^ 6 : ℤ) :=
    roundHalfEven_le (by push_cast; linarith)
  have hrl' : (0 : ℚ) ≤ roundHalfEven (nearest (q * 255) * 10 ^ 6) := by exact_mod_cast hrl
  have hru' : (roundHalfEven (nearest (q * 255) * 10 ^ 6) : ℚ) ≤ 255 * 10 ^ 6 := by
    exact_mod_cast hru
  refine ⟨by positivity, ?_⟩
  rw [div_le_iff₀ (by norm_num)]
  exact hru'

theorem scaled_bounds : 0 ≤ scaled q ∧ scaled q ≤ 255 := by
  obtain ⟨hl, hu⟩ := sixPlaces_bounds h0 h1
  exact ⟨nearest_nonneg hl, nearest_le_255 hl hu⟩

theorem rounded_eq {x : Binary64} (hq : x.unitClamp = finite q) :
    (x.unitClamp * 255).round 6 + Fractions.half = finite (nearest (scaled q + 1 / 2)) := by
  have h255 := literal_eq_finite 255 (by norm_num)
  obtain ⟨hpl, hpu⟩ := product_bounds h0 h1
  obtain ⟨hsl, hsu⟩ := sixPlaces_bounds h0 h1
  obtain ⟨hcl, hcu⟩ := scaled_bounds h0 h1
  rw [hq, h255, mul_finite, Nat.cast_ofNat, ofRat_of_le_256 (by positivity) (by linarith), round_finite hpl,
    ofRat_of_le_256 hsl (by linarith), half_eq, add_finite]
  change ofRat (scaled q + 1 / 2) = _
  rw [ofRat_of_le_256 (by positivity) (by linarith)]

theorem toChannel_eq {x : Binary64} (hx : x.isFinite = true) (hq : x.unitClamp = finite q) :
    toChannel x = some (nearest (scaled q + 1 / 2)).floor := by
  rw [toChannel, if_pos hx, rounded_eq h0 h1 hq]
  rfl

end

theorem toChannel_bounds {x : Binary64} (h : toChannel x = some n) : 0 ≤ n ∧ n ≤ 255 := by
  have hx : x.isFinite = true := by
    by_contra hx
    simp [toChannel, hx] at h
  obtain ⟨q, hq, h0, h1⟩ := unitClamp_bounds x
  obtain ⟨hcl, hcu⟩ := scaled_bounds h0 h1
  rw [toChannel_eq h0 h1 hx hq, Option.some.injEq] at h
  have hl : (0 : ℚ) ≤ nearest (scaled q + 1 / 2) := nearest_nonneg (by positivity)
  have hu : nearest (scaled q + 1 / 2) ≤ ((511 : ℤ) : ℚ) / 2 :=
    nearest_le_half (by positivity) (by push_cast; linarith) (by norm_num)
  constructor
  · rw [← h, Rat.le_floor_iff]
    exact_mod_cast hl
  · have hlt : (nearest (scaled q + 1 / 2)).floor < 256 := by
      rw [Rat.floor_lt_iff]
      push_cast at hu ⊢
      linarith
    omega

theorem scaled_byte {k : ℕ} (h : k ≤ 255) : scaled (nearest (k / 255)) = k := by
  have hk : (k : ℚ) ≤ 255 := by exact_mod_cast h
  have h1 : (k : ℚ) / 255 ≤ (2 : ℚ) ^ (0 : ℤ) := by norm_num; linarith
  have hd := abs_nearest_sub_le (by positivity) h1 (by norm_num)
  have hn0 : 0 ≤ nearest ((k : ℚ) / 255) := nearest_nonneg (by positivity)
  have hn1 : nearest ((k : ℚ) / 255) ≤ 1 := by
    simpa using nearest_le_two_zpow (by positivity) h1 (by norm_num)
  have hp := abs_nearest_sub_le (q := nearest ((k : ℚ) / 255) * 255) (e := 8) (by positivity)
    (by norm_num; linarith) (by norm_num)
  have hr : roundHalfEven (nearest (nearest ((k : ℚ) / 255) * 255) * 10 ^ 6) = (k * 10 ^ 6 : ℤ) := by
    apply roundHalfEven_eq_of_near
    norm_num at hd hp
    rw [abs_le] at hd hp
    rw [abs_lt]
    push_cast
    constructor <;> linarith [hd.1, hd.2, hp.1, hp.2]
  have hh := nearest_half (m := 2 * k) (by positivity) (by omega)
  push_cast at hh
  rw [mul_div_cancel_left₀ _ (by norm_num : (2 : ℚ) ≠ 0)] at hh
  have hc : ((k * 10 ^ 6 : ℤ) : ℚ) / 10 ^ 6 = k := by
    push_cast
    ring
  rw [scaled, hr, hc, hh]

theorem toChannel_byte {k : ℕ} (h : k ≤ 255) : toChannel (Binary64.ofInt k / 255) = some (k : ℤ) := by
  have hk : (k : ℚ) ≤ 255 := by exact_mod_cast h
  have h255 := literal_eq_finite 255 (by norm_num)
  have h1 : (k : ℚ) / 255 ≤ 1 := by linarith
  have hn0 : 0 ≤ nearest ((k : ℚ) / 255) := nearest_nonneg (by positivity)
  have hn1 : nearest ((k : ℚ) / 255) ≤ 1 := by
    simpa using nearest_le_two_zpow (e := 0) (by positivity) (by simpa using h1) (by norm_num)
  have hx : Binary64.ofInt k / 255 = finite (nearest (k / 255)) := by
    rw [ofInt_eq_finite (by positivity) (by omega), h255, div_finite _ (by norm_num), Int.cast_natCast,
      Nat.cast_ofNat, ofRat_of_le_256 (by positivity) (by linarith)]
  have hh := nearest_half (m := 2 * k + 1) (by positivity) (by omega)
  rw [hx, toChannel_eq hn0 hn1 rfl (unitClamp_finite hn0 hn1), scaled_byte h]
  push_cast at hh
  rw [show (k : ℚ) + 1 / 2 = (2 * k + 1) / 2 by ring, hh, Option.some.injEq]
  apply le_antisymm
  · have hlt : ((2 * k + 1 : ℚ) / 2).floor < k + 1 := by
      rw [Rat.floor_lt_iff]
      push_cast
      linarith
    omega
  · rw [Rat.le_floor_iff]
    push_cast
    linarith

theorem rgba?_isCanonical {s : Shade} {c : Rgba} (h : s.rgba? = some c) : c.IsCanonical := by
  simp only [Shade.rgba?, bind, Option.bind_eq_some_iff] at h
  obtain ⟨r, hr, g, hg, b, hb, h⟩ := h
  split at h
  · obtain ⟨k, hk, ha⟩ := round_unitClamp s.alpha
    cases h
    exact ⟨toChannel_bounds hr, toChannel_bounds hg, toChannel_bounds hb, k, hk, ha⟩
  · simp at h

theorem named_bounds {name : Text} {c : Rgb} (h : named name = some c) :
    c.red < 256 ∧ c.green < 256 ∧ c.blue < 256 := by
  unfold named at h
  dsimp only at h
  split at h
  · simp at h
  · rw [ofKeyword, Option.map_eq_some_iff] at h
    obtain ⟨n, -, rfl⟩ := h
    exact Rgb.ofCode_bounds n

theorem solid_isCanonical {name : Text} {c : Rgb} (h : named name = some c) :
    (solid c).IsCanonical := by
  obtain ⟨hr, hg, hb⟩ := named_bounds h
  refine ⟨⟨?_, ?_⟩, ⟨?_, ?_⟩, ⟨?_, ?_⟩, 1000, le_rfl, opacity_thousand.symm⟩ <;>
    simp only [solid] <;> omega

theorem read_isCanonical {text : Text} {c : Rgba} (h : read text = .ok (some c)) :
    c.IsCanonical := by
  unfold read at h
  dsimp only at h
  split at h
  · simp at h
  · split at h
    · cases hs : shade (Text.lower (Text.strip text)) with
      | error f => simp [hs, Except.map] at h
      | ok s =>
        simp only [hs, Except.map, Except.ok.injEq, Option.bind_eq_some_iff] at h
        obtain ⟨s, -, hc⟩ := h
        exact rgba?_isCanonical hc
    · split at h
      · cases h
        exact ⟨by simp, by simp, by simp, 0, by simp, opacity_zero.symm⟩
      · simp only [Except.ok.injEq, Option.map_eq_some_iff] at h
        obtain ⟨c, hc, rfl⟩ := h
        exact solid_isCanonical hc

end Color

end ColorCensus
