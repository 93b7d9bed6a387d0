import ColorCensus.Proofs.Color.Numeral

namespace ColorCensus.Color

open Text CodePoint Css Rgba

variable {c : Rgba} {s t : Text}

inductive IsForm : Text → Prop where
  | solid (red green blue : ℕ) (hr : red ≤ 255) (hg : green ≤ 255) (hb : blue ≤ 255) :
    IsForm ("rgb(" ++ join ", " [natural red, natural green, natural blue] ++ ")")
  | translucent (red green blue : ℕ) (hr : red ≤ 255) (hg : green ≤ 255) (hb : blue ≤ 255) (k : ℕ) (hk : k < 1000)
    (a : Text) (ha : IsShortest (k / 1000) a) :
    IsForm ("rgba(" ++ join ", " [natural red, natural green, natural blue, a] ++ ")")

theorem isForm_text (h : c.IsCanonical) : IsForm c.text := by
  obtain ⟨red, green, blue, k, hr, hg, hb, hk, rfl⟩ := h.exists_bytes
  rcases hk.lt_or_eq with hlt | rfl
  · rw [text_opacity hlt]
    exact .translucent red green blue hr hg hb k hlt _ ((isShortest_iff hlt).mpr rfl)
  · rw [text_solid]
    exact .solid red green blue hr hg hb

theorem exists_text_of_isForm (h : IsForm s) : ∃ c : Rgba, c.IsCanonical ∧ s = c.text := by
  cases h with
  | solid red green blue hr hg hb =>
    exact ⟨⟨red, green, blue, opacity 1000⟩, ⟨by simpa using hr, by simpa using hg, by simpa using hb, 1000, le_rfl, rfl⟩,
      text_solid.symm⟩
  | translucent red green blue hr hg hb k hk a ha =>
    obtain rfl := (isShortest_iff hk).mp ha
    exact ⟨⟨red, green, blue, opacity k⟩, ⟨by simpa using hr, by simpa using hg, by simpa using hb, k, hk.le, rfl⟩,
      (text_opacity hk).symm⟩

theorem normalize_form :
    (∀ c : Rgba, (∃ t, read t = .ok (some c)) ↔ c.IsCanonical) ∧
      ∀ s : Text, (∃ t, normalize t = .ok (some s)) ↔ IsForm s := by
  refine ⟨fun c => ⟨fun ⟨t, ht⟩ => read_isCanonical ht, fun hc => ⟨c.text, read_text hc⟩⟩, fun s => ⟨?_, ?_⟩⟩
  · rintro ⟨t, ht⟩
    obtain ⟨c, hc, -, rfl⟩ := exists_of_normalize ht
    exact isForm_text hc
  · intro hs
    obtain ⟨c, hc, rfl⟩ := exists_text_of_isForm hs
    exact ⟨c.text, normalize_text hc⟩

end ColorCensus.Color
