import ColorCensus.Proofs.Census.Selection
import ColorCensus.Proofs.Color.Candidate
import ColorCensus.Proofs.Plain.Sheet
import ColorCensus.Tally

namespace ColorCensus.Plain

open Text CodePoint Css

namespace Ink

def color : Ink → Rgba
  | solid r g b => ⟨r, g, b, Rgba.opacity 1000⟩
  | translucent r g b k => ⟨r, g, b, Rgba.opacity k⟩

theorem isCanonical_color (i : Ink) : i.color.IsCanonical := by
  have hchannel (n : Fin 256) : (0 : ℤ) ≤ n ∧ (n : ℤ) ≤ 255 := by omega
  cases i with
  | solid r g b => exact ⟨hchannel r, hchannel g, hchannel b, 1000, le_rfl, rfl⟩
  | translucent r g b k => exact ⟨hchannel r, hchannel g, hchannel b, k, k.isLt.le, rfl⟩

theorem text_color (i : Ink) : i.color.text = i.text := by
  cases i with
  | solid r g b =>
    have ho := Color.isOpaque_opacity (c := color (solid r g b)) le_rfl rfl
    rw [color, Color.text_of_solid ho]
    simp [text, function, numerals, join, Color.call, Color.arguments, ofString]
  | translucent r g b k =>
    rw [color, Color.text_of_translucent k.isLt]
    simp [text, function, numerals, join, Color.call, Color.arguments, ofString]

theorem normalize_text (i : Ink) : Color.normalize i.text = .ok (some i.text) := by
  rw [← i.text_color]
  exact Color.normalize_text i.isCanonical_color

theorem isCandidate_text (i : Ink) : Candidate.IsCandidate i.text := by
  have hhead : i.function ++ "(" ∈ Candidate.functionHeads := by
    rcases i.function_eq with h | h <;> rw [h] <;> decide
  have hnumeral : ∀ r ∈ i.numerals, ∀ c ∈ r, c ≠ char ')' := by
    intro r hr
    refine (i.numeral_of_mem r hr).forall_mem ?_ (by decide)
    rintro c hc rfl
    exact absurd hc (by decide)
  have h0 : join ", " i.numerals ≠ [] := by
    cases i <;> simp [numerals, join, List.intercalate, natural_ne_nil]
  exact Candidate.isCandidate_function hhead (forall_mem_intercalate (by decide) hnumeral) h0

end Ink

theorem Declaration.tokens_value (d : Declaration) : Candidate.tokens d.value = d.inks.map Ink.text := by
  refine Candidate.tokens_join ?_ fun c hc => (d.isPlain_of_mem_value c hc).classes.2.2.2.2
  rw [List.forall_mem_map]
  exact fun i _ => i.isCandidate_text

theorem Declaration.colorsOf_value (d : Declaration) : Tally.colorsOf d.value = d.inks.map Ink.text := by
  rw [Tally.colorsOf, d.tokens_value, List.filterMap_map, ← List.filterMap_eq_map]
  exact List.filterMap_congr fun i _ => Tally.canonical?_eq_some.mpr i.normalize_text

theorem addStylesheet_sheetText (P : List Text) (rules : List Rule) (t : Tally) :
    t.addStylesheet P (sheetText rules) = (t.addAll (colors P rules), none) := by
  rw [Tally.addStylesheet, parse_sheetText]
  dsimp only
  have hcolors : (((listed P rules).map Declaration.entry).map fun d => d.value).flatMap Tally.colorsOf =
      colors P rules := by
    rw [List.map_map, List.flatMap_map]
    exact List.flatMap_congr fun d _ => d.colorsOf_value
  rw [extract_sheetText, Tally.addExtraction, Tally.addValues_eq_addAll, hcolors]

theorem inventory_sheetText (P : List Text) (rules : List Rule) :
    declared P (sheetText rules) = .ok ⟨(listed P rules).map Declaration.entry, none⟩ ∧
    ∀ t : Tally, (t.addStylesheet P (sheetText rules)).2 = none ∧
      ∀ c, (t.addStylesheet P (sheetText rules)).1.get c = t.get c + (colors P rules).count c := by
  refine ⟨?_, fun t => ?_⟩
  · rw [declared, parse_sheetText, Except.map, extract_sheetText]
  · rw [addStylesheet_sheetText]
    exact ⟨rfl, Tally.get_addAll t (colors P rules)⟩

example :
    let rules : List Rule := [
      ⟨⟨"p", by decide, by decide⟩, [
        ⟨⟨[⟨"border", by decide, by decide⟩, ⟨"color", by decide, by decide⟩], by decide⟩,
          [.solid 255 0 7, .translucent 0 0 0 50], by decide⟩]⟩,
      ⟨⟨"b", by decide, by decide⟩, []⟩]
    sheetText rules =
      "p \x7b border-color: rgb(255, 0, 7), rgba(0, 0, 0, 0.05); \x7d\nb \x7b \x7d" ∧
    declared ["border-color"] (sheetText rules) =
      .ok ⟨[⟨"border-color", "rgb(255, 0, 7), rgba(0, 0, 0, 0.05)"⟩], none⟩ := by
  decide +kernel

end ColorCensus.Plain
