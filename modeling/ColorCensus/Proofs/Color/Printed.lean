import ColorCensus.Proofs.Color.Opacity
import ColorCensus.Proofs.Text.Digits
import ColorCensus.Proofs.Text.Split

namespace ColorCensus

open Text Binary64 CodePoint

namespace Text

theorem natural_injective : Function.Injective natural :=
  Function.LeftInverse.injective (g := ofDecimal) ofDecimal_natural

theorem not_mem_natural {c : CodePoint} (h : c.isDigit = false) (n : ℕ) : c ∉ natural n := fun hc =>
  absurd (isDigit_of_mem_natural hc) (by simp [h])

theorem integer_injective : Function.Injective integer := by
  have hsign (m n : ℕ) : natural m ≠ char '-' :: natural n := fun h =>
    not_mem_natural (by decide) m (h ▸ List.mem_cons_self : char '-' ∈ natural m)
  intro m n h
  cases m with
  | ofNat m =>
    cases n with
    | ofNat n => exact congrArg Int.ofNat (natural_injective h)
    | negSucc n => exact absurd h (hsign m (n + 1))
  | negSucc m =>
    cases n with
    | ofNat n => exact absurd h.symm (hsign n (m + 1))
    | negSucc n => exact congrArg Int.negSucc (Nat.succ.inj (natural_injective (List.cons.inj h).2))

theorem not_mem_integer {c : CodePoint} (h : c.isDigit = false) (hc : c ≠ '-') (n : ℤ) : c ∉ integer n := by
  cases n with
  | ofNat n => exact not_mem_natural h n
  | negSucc n => simpa [integer, hc] using not_mem_natural h (n + 1)

end Text

namespace Rgba

variable {c d : Rgba} {x y : Binary64} {k n : ℕ} {s : Text} {limit : DigitLimit}

def IsFraction (x : Binary64) : Prop := ∃ q ∈ x.toRat?, 0 ≤ q ∧ q ≤ 1

instance : DecidablePred IsFraction := fun x => inferInstanceAs (Decidable (∃ q ∈ x.toRat?, 0 ≤ q ∧ q ≤ 1))

theorem toRat?_opacity (h : k ≤ 1000) : (opacity k).toRat? = some (nearest (k / 1000)) := by
  rw [opacity_eq h, toRat?]

theorem toRat?_opacity_inj (hk : k ≤ 1000) (hn : n ≤ 1000) :
    (opacity k).toRat? = (opacity n).toRat? ↔ k = n := by
  refine ⟨fun h => ?_, fun h => h ▸ rfl⟩
  rw [toRat?_opacity hk, toRat?_opacity hn, Option.some.injEq] at h
  have hdk := abs_nearest_thousandths_sub_lt hk
  have hdn := abs_nearest_thousandths_sub_lt hn
  rw [abs_lt] at hdk hdn
  rw [h] at hdk
  have hlt : (k : ℚ) < n + 1 := by linarith [hdk.1, hdn.2]
  have hgt : (n : ℚ) < k + 1 := by linarith [hdk.2, hdn.1]
  have hlt : k < n + 1 := by exact_mod_cast hlt
  have hgt : n < k + 1 := by exact_mod_cast hgt
  omega

theorem toGeneral_one : (opacity 1000).toGeneral = "1" := by
  rw [opacity_thousand, literal_eq_finite 1 (by norm_num)]
  decide +kernel

theorem exists_opacityText_cons (h : k < 1000) : ∃ s, opacityText k = char '0' :: s := by
  rcases Nat.eq_zero_or_pos k with rfl | h0
  · exact ⟨[], rfl⟩
  · obtain ⟨digits, -, -, -, hs, -⟩ := opacityText_of_pos h0 h
    exact ⟨_, hs⟩

theorem toGeneral_opacity_inj (hk : k ≤ 1000) (hn : n ≤ 1000) :
    (opacity k).toGeneral = (opacity n).toGeneral ↔ k = n := by
  refine ⟨fun h => ?_, fun h => h ▸ rfl⟩
  have hone {m : ℕ} (hm : m < 1000) : (opacity m).toGeneral ≠ (opacity 1000).toGeneral := by
    obtain ⟨s, hs⟩ := exists_opacityText_cons hm
    rw [toGeneral_opacity hm, hs, toGeneral_one]
    exact fun h => absurd (List.cons.inj h).1 (by decide)
  rcases hk.lt_or_eq with hk' | rfl
  · rcases hn.lt_or_eq with hn' | rfl
    · rw [toGeneral_opacity hk', toGeneral_opacity hn'] at h
      rw [← toRat?_opacity_inj hk hn, ← Color.numberValue_opacityText hk', h, Color.numberValue_opacityText hn']
    · exact absurd h (hone hk')
  · rcases hn.lt_or_eq with hn' | rfl
    · exact absurd h.symm (hone hn')
    · rfl

def alphaText (x : Binary64) : Text := (x.round alphaPlaces).toGeneral

theorem IsFraction.exists_thousandths (h : IsFraction x) : ∃ k ≤ 1000,
    (x.round alphaPlaces).toRat? = (opacity k).toRat? ∧
      alphaText x = if x = negativeZero then ofString "-0" else (opacity k).toGeneral := by
  obtain ⟨q, hq, h0, h1⟩ := h
  cases x with
  | finite p =>
    obtain rfl := Option.some.inj hq
    obtain ⟨k, hk, hr⟩ := round_unitClamp (finite p)
    rw [unitClamp_finite h0 h1] at hr
    exact ⟨k, hk, by rw [hr], by rw [alphaText, hr, if_neg (by simp)]⟩
  | negativeZero =>
    refine ⟨0, by omega, ?_, rfl⟩
    rw [toRat?_opacity (by omega), Nat.cast_zero, zero_div, nearest_zero]
    rfl
  | infinite s => cases hq
  | nan => cases hq

theorem IsFraction.alphaText_eq_iff (hx : IsFraction x) (hy : IsFraction y) :
    alphaText x = alphaText y ↔
      (x.round alphaPlaces).toRat? = (y.round alphaPlaces).toRat? ∧ (x = negativeZero ↔ y = negativeZero) := by
  obtain ⟨k, hk, hkr, hkt⟩ := hx.exists_thousandths
  obtain ⟨n, hn, hnr, hnt⟩ := hy.exists_thousandths
  have hsign {m : ℕ} (hm : m ≤ 1000) : (opacity m).toGeneral ≠ ofString "-0" := by
    rcases hm.lt_or_eq with hm | rfl
    · obtain ⟨s, hs⟩ := exists_opacityText_cons hm
      rw [toGeneral_opacity hm, hs]
      exact fun h => absurd (List.cons.inj h).1 (by decide)
    · rw [toGeneral_one]
      decide
  rw [hkt, hnt, hkr, hnr, toRat?_opacity_inj hk hn]
  by_cases hx0 : x = negativeZero <;> by_cases hy0 : y = negativeZero
  · obtain rfl : k = n := by
      rw [← toRat?_opacity_inj hk hn, ← hkr, ← hnr, hx0, hy0]
    simp [hx0, hy0]
  · simp [hx0, hy0, (hsign hn).symm]
  · simp [hx0, hy0, hsign hk]
  · simp [hx0, hy0, toGeneral_opacity_inj hk hn]

theorem IsFraction.eq_one (h : IsFraction c.alpha) (ho : c.isOpaque = true) : c.alpha = finite 1 := by
  have h1 : (1 : Binary64) = finite 1 := literal_eq_finite 1 (by norm_num)
  obtain ⟨q, hq, h0, hq1⟩ := h
  rw [isOpaque, h1] at ho
  cases ha : c.alpha with
  | finite p =>
    rw [ha] at ho hq
    obtain rfl := Option.some.inj hq
    rw [le_finite, Bool.not_eq_true', decide_eq_false_iff_not, not_lt] at ho
    rw [le_antisymm hq1 ho]
  | negativeZero =>
    rw [ha] at ho
    exact absurd ho (by decide)
  | infinite s =>
    rw [ha] at hq
    cases hq
  | nan =>
    rw [ha] at hq
    cases hq

theorem text_of_isOpaque (h : c.isOpaque = true) : c.text = ofString "rgb(" ++ integer c.red ++ char ',' ::
    (char ' ' :: integer c.green ++ char ',' :: (char ' ' :: integer c.blue ++ [char ')'])) := by
  rw [text, if_pos h]
  simp [channelsText, join, List.intercalate, ofString]

theorem text_of_not_isOpaque (h : c.isOpaque = false) : c.text = ofString "rgba(" ++ integer c.red ++ char ',' ::
    (char ' ' :: integer c.green ++ char ',' :: (char ' ' :: integer c.blue ++ char ',' ::
      (char ' ' :: alphaText c.alpha ++ [char ')']))) := by
  rw [text, if_neg (by simp [h])]
  simp [channelsText, alphaText, join, List.intercalate, ofString]

theorem not_mem_spaced (n : ℤ) : char ',' ∉ char ' ' :: integer n := by
  simpa using not_mem_integer (by decide) (by decide) n

theorem not_mem_head (head : Text) (h : char ',' ∉ head) (n : ℤ) : char ',' ∉ head ++ integer n := by
  simpa [h] using not_mem_integer (by decide) (by decide) n

structure IsSameColor (c d : Rgba) : Prop where
  red : c.red = d.red
  green : c.green = d.green
  blue : c.blue = d.blue
  alpha : (c.alpha.round alphaPlaces).toRat? = (d.alpha.round alphaPlaces).toRat?

theorem isSameColor_iff : IsSameColor c d ↔ (c.red = d.red ∧ c.green = d.green ∧ c.blue = d.blue) ∧
    (c.alpha.round alphaPlaces).toRat? = (d.alpha.round alphaPlaces).toRat? :=
  ⟨fun h => ⟨⟨h.red, h.green, h.blue⟩, h.alpha⟩, fun ⟨⟨hr, hg, hb⟩, ha⟩ => ⟨hr, hg, hb, ha⟩⟩

theorem text_eq_iff_of_isOpaque (hc : IsFraction c.alpha) (hd : IsFraction d.alpha) (hco : c.isOpaque = true)
    (hdo : d.isOpaque = true) : c.text = d.text ↔ IsSameColor c d := by
  rw [text_of_isOpaque hco, text_of_isOpaque hdo,
    append_separator_inj (not_mem_head _ (by decide) _) (not_mem_head _ (by decide) _),
    append_separator_inj (not_mem_spaced _) (not_mem_spaced _), isSameColor_iff, hc.eq_one hco, hd.eq_one hdo]
  simp [integer_injective.eq_iff]

theorem text_eq_iff_of_not_isOpaque (hc : IsFraction c.alpha) (hd : IsFraction d.alpha) (hco : c.isOpaque = false)
    (hdo : d.isOpaque = false) :
    c.text = d.text ↔ IsSameColor c d ∧ (c.alpha = negativeZero ↔ d.alpha = negativeZero) := by
  rw [text_of_not_isOpaque hco, text_of_not_isOpaque hdo,
    append_separator_inj (not_mem_head _ (by decide) _) (not_mem_head _ (by decide) _),
    append_separator_inj (not_mem_spaced _) (not_mem_spaced _),
    append_separator_inj (not_mem_spaced _) (not_mem_spaced _), isSameColor_iff]
  simp [integer_injective.eq_iff, hc.alphaText_eq_iff hd, and_assoc]

theorem text_ne_of_isOpaque (hco : c.isOpaque = false) (hdo : d.isOpaque = true) : c.text ≠ d.text := by
  rw [text_of_not_isOpaque hco, text_of_isOpaque hdo]
  simp [ofString]

theorem IsFraction.alphaText_eq_one_iff (h : IsFraction x) :
    alphaText x = "1" ↔ (x.round alphaPlaces).toRat? = some 1 := by
  have hone : (opacity 1000).toRat? = some 1 := by
    rw [opacity_thousand, literal_eq_finite 1 (by norm_num), toRat?, Nat.cast_one]
  have ho : IsFraction (opacity 1000) := ⟨1, hone, zero_le_one, le_rfl⟩
  have hr : (opacity 1000).round alphaPlaces = opacity 1000 := round_opacity le_rfl
  have ht : alphaText (opacity 1000) = "1" := by rw [alphaText, hr, toGeneral_one]
  have hz : opacity 1000 ≠ negativeZero := by
    intro hn
    rw [hn] at hone
    cases hone
  rw [← ht, h.alphaText_eq_iff ho, hr, hone, and_iff_left_iff_imp]
  rintro hx
  refine iff_of_false ?_ hz
  rintro rfl
  cases hx

theorem text_eq_iff (hc : IsFraction c.alpha) (hd : IsFraction d.alpha) : c.text = d.text ↔
    IsSameColor c d ∧ c.isOpaque = d.isOpaque ∧ (c.alpha = negativeZero ↔ d.alpha = negativeZero) := by
  cases hco : c.isOpaque <;> cases hdo : d.isOpaque
  · simp [text_eq_iff_of_not_isOpaque hc hd hco hdo]
  · simp [text_ne_of_isOpaque hco hdo]
  · simp [(text_ne_of_isOpaque hdo hco).symm]
  · simp [text_eq_iff_of_isOpaque hc hd hco hdo, hc.eq_one hco, hd.eq_one hdo]

theorem text_eq_one_iff (hc : IsFraction c.alpha) : c.text = "rgba(" ++ c.channelsText ++ ", 1)" ↔
    (c.alpha.round alphaPlaces).toRat? = some 1 ∧ c.isOpaque = false := by
  cases hco : c.isOpaque
  · have htail : ofString ", 1)" = ofString ", " ++ ofString "1" ++ ofString ")" := rfl
    rw [← hc.alphaText_eq_one_iff, Rgba.text, if_neg (by simp [hco]), ← alphaText, htail, ← List.append_assoc,
      ← List.append_assoc, List.append_left_inj, List.append_right_inj]
    simp
  · rw [Rgba.text, if_pos hco]
    simp [ofString]

structure Fits (limit : DigitLimit) (c : Rgba) : Prop where
  red : limit.admits c.red = true
  green : limit.admits c.green = true
  blue : limit.admits c.blue = true

theorem write_eq_ok_iff : c.write limit = .ok s ↔ c.Fits limit ∧ c.text = s := by
  have hfits : (∀ n ∈ [c.red, c.green, c.blue], limit.admits n = true) ↔ c.Fits limit := by
    simp only [List.forall_mem_cons]
    exact ⟨fun ⟨hr, hg, hb, _⟩ => ⟨hr, hg, hb⟩, fun ⟨hr, hg, hb⟩ => ⟨hr, hg, hb, by simp⟩⟩
  rw [write, DigitLimit.check_map_eq_ok_iff, hfits]

theorem IsSameColor.fits (h : IsSameColor c d) (hc : c.Fits limit) : d.Fits limit :=
  ⟨h.red ▸ hc.red, h.green ▸ hc.green, h.blue ▸ hc.blue⟩

theorem write_alike_iff (limit : DigitLimit) (hc : IsFraction c.alpha) (hd : IsFraction d.alpha) :
    ((∃ s, c.write limit = .ok s) ↔ c.Fits limit) ∧
    ((∃ s, c.write limit = .ok s ∧ d.write limit = .ok s) ↔
      c.Fits limit ∧ IsSameColor c d ∧ c.isOpaque = d.isOpaque ∧
        (c.alpha = negativeZero ↔ d.alpha = negativeZero)) ∧
    (c.write limit = .ok ("rgba(" ++ c.channelsText ++ ", 1)") ↔
      c.Fits limit ∧ (c.alpha.round alphaPlaces).toRat? = some 1 ∧ c.isOpaque = false) := by
  refine ⟨by simp [write_eq_ok_iff], ?_, ?_⟩
  · simp only [write_eq_ok_iff]
    rw [← text_eq_iff hc hd]
    constructor
    · rintro ⟨s, ⟨hfits, rfl⟩, -, hs⟩
      exact ⟨hfits, hs.symm⟩
    · rintro ⟨hfits, htext⟩
      exact ⟨c.text, ⟨hfits, rfl⟩, ((text_eq_iff hc hd).mp htext).1.fits hfits, htext.symm⟩
  · rw [write_eq_ok_iff, text_eq_one_iff hc]

open Color in
theorem write_alike_iff_thirds :
    IsFraction (numberValue "0.3333") ∧ IsFraction (numberValue "0.33333") ∧
      ∃ s, Rgba.write .standard ⟨-7, 1000, 0, numberValue "0.3333"⟩ = .ok s ∧
        Rgba.write .standard ⟨-7, 1000, 0, numberValue "0.33333"⟩ = .ok s :=
  have hx : IsFraction (numberValue "0.3333") := by decide +kernel
  have hy : IsFraction (numberValue "0.33333") := by decide +kernel
  have halpha : ((numberValue "0.3333").round alphaPlaces).toRat? =
      ((numberValue "0.33333").round alphaPlaces).toRat? := by decide +kernel
  have hopaque : Rgba.isOpaque ⟨-7, 1000, 0, numberValue "0.3333"⟩ =
      Rgba.isOpaque ⟨-7, 1000, 0, numberValue "0.33333"⟩ := by decide +kernel
  have hsign : numberValue "0.3333" = negativeZero ↔ numberValue "0.33333" = negativeZero := by decide +kernel
  ⟨hx, hy, (write_alike_iff .standard (c := ⟨-7, 1000, 0, numberValue "0.3333"⟩)
    (d := ⟨-7, 1000, 0, numberValue "0.33333"⟩) hx hy).2.1.mpr
      ⟨⟨by decide, by decide, by decide⟩, ⟨rfl, rfl, rfl, halpha⟩, hopaque, hsign⟩⟩

open Color in
theorem write_not_alike : ¬ ∀ (limit : DigitLimit) (c d : Rgba), c.Fits limit → d.Fits limit →
    IsFraction c.alpha → IsFraction d.alpha →
    ((∃ s, c.write limit = .ok s ∧ d.write limit = .ok s) ↔ IsSameColor c d) := by
  intro h
  have hlow : IsFraction (numberValue "0.9996") := by decide +kernel
  have hone : IsFraction (numberValue "1") := by decide +kernel
  have halpha : ((numberValue "0.9996").round alphaPlaces).toRat? = ((numberValue "1").round alphaPlaces).toRat? := by
    decide +kernel
  have htext : Rgba.text ⟨0, 0, 0, numberValue "0.9996"⟩ = "rgba(0, 0, 0, 1)" ∧
      Rgba.text ⟨0, 0, 0, numberValue "1"⟩ = "rgb(0, 0, 0)" := by decide +kernel
  have hzero : DigitLimit.standard.admits 0 = true := by decide
  have hfits (a : Binary64) : Rgba.Fits .standard ⟨0, 0, 0, a⟩ := ⟨hzero, hzero, hzero⟩
  obtain ⟨s, hs, ht⟩ := (h .standard ⟨0, 0, 0, numberValue "0.9996"⟩ ⟨0, 0, 0, numberValue "1"⟩ (hfits _) (hfits _)
    hlow hone).mpr ⟨rfl, rfl, rfl, halpha⟩
  have hsame := (write_eq_ok_iff.mp hs).2.trans (write_eq_ok_iff.mp ht).2.symm
  rw [htext.1, htext.2] at hsame
  exact absurd hsame (by decide)

end Rgba

end ColorCensus
