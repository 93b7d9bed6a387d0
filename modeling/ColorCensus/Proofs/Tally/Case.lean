import ColorCensus.Proofs.Css.Lettering
import ColorCensus.Proofs.Css.SoleDeclaration

namespace ColorCensus

open Text CodePoint Css

variable {v w : Text} {ns ms : List Node}

namespace Css

theorem valueText_congr (h : ms.map (Node.rewrite .fold) = ns.map (Node.rewrite .fold)) :
    valueText ms = valueText ns := by
  apply lower_strip_congr
  rw [← Node.asciiLower_listText_rewrite, h, Node.asciiLower_listText_rewrite]

theorem endsDeclaration_toLower (c : CodePoint) : EndsDeclaration c.toLower ↔ EndsDeclaration c :=
  or_congr (toLower_eq_iff (by decide))
    (or_congr (toLower_eq_iff (by decide)) (toLower_eq_iff (by decide)))

theorem not_endsDeclaration_congr (h : asciiLower w = asciiLower v) (hv : ∀ c ∈ v, ¬ EndsDeclaration c) :
    ∀ c ∈ w, ¬ EndsDeclaration c := by
  intro c hc
  have hm : c.toLower ∈ asciiLower v := h ▸ List.mem_map_of_mem hc
  obtain ⟨d, hd, hdc⟩ := List.mem_map.mp hm
  rw [← endsDeclaration_toLower, ← hdc, endsDeclaration_toLower]
  exact hv d hd

theorem asciiLower_colorRule (h : asciiLower w = asciiLower v) :
    asciiLower (colorRule w) = asciiLower (colorRule v) :=
  asciiLower_append_congr (asciiLower_append_congr rfl h) rfl

theorem read_congr (h : asciiLower w = asciiLower v) :
    (Node.read w).map (Node.rewrite .fold) = (Node.read v).map (Node.rewrite .fold) := by
  rw [← read_asciiLower, h, read_asciiLower]

theorem declarationValue_congr {x y : List Node} (h : ms.map (Node.rewrite .fold) = ns.map (Node.rewrite .fold))
    (hx : declarationValue ns = some x) (hy : declarationValue ms = some y) :
    y.map (Node.rewrite .fold) = x.map (Node.rewrite .fold) := by
  have hxy := congrArg declarationValue h
  rw [declarationValue_rewrite, declarationValue_rewrite, hx, hy] at hxy
  exact Option.some.inj hxy

theorem outcome_colorRule_congr (hv : ∀ c ∈ v, ¬ EndsDeclaration c) (h : asciiLower w = asciiLower v) :
    outcome ["color"] (colorRule w) = outcome ["color"] (colorRule v) := by
  have hrule := asciiLower_colorRule h
  have hi : imbalance (colorRule w) = imbalance (colorRule v) := by
    rw [← imbalance_asciiLower, hrule, imbalance_asciiLower]
  obtain ⟨p₁, p₂, p₃, p₄, closed, ns, hread, hns⟩ := read_colorRule hv
  obtain ⟨q₁, q₂, q₃, q₄, closed', ms, hread', hms⟩ := read_colorRule (not_endsDeclaration_congr h hv)
  obtain ⟨x, hx⟩ := exists_declarationValue hns
  obtain ⟨y, hy⟩ := exists_declarationValue hms
  -- both texts have this shape, and they fold to the same components: so do the two values
  have hfold := read_congr hrule
  rw [hread, hread'] at hfold
  have hcontent := (Node.block.inj (List.cons.inj (List.cons.inj hfold).2).1).2.2.1
  have hnodes : Node.rewriteAll .fold ms = Node.rewriteAll .fold ns :=
    (List.cons.inj (List.cons.inj hcontent).2).2
  rw [Node.rewriteAll_eq_map, Node.rewriteAll_eq_map] at hnodes
  rw [outcome_eq, outcome_eq, hi, unchecked_of_read hread hns hx, unchecked_of_read hread' hms hy,
    valueText_congr (declarationValue_congr hnodes hx hy)]

end Css

namespace Tally

theorem addStylesheet_colorRule_congr (t : Tally) (hv : ∀ c ∈ v, c ≠ ';' ∧ c ≠ '\x7b' ∧ c ≠ '\x7d')
    (h : asciiLower w = asciiLower v) :
    t.addStylesheet ["color"] (colorRule w) = t.addStylesheet ["color"] (colorRule v) := by
  have hends : ∀ c ∈ v, ¬ EndsDeclaration c := fun c hc => by
    obtain ⟨hs, ho, hc⟩ := hv c hc
    exact not_or.mpr ⟨hs, not_or.mpr ⟨ho, hc⟩⟩
  rw [addStylesheet_eq, addStylesheet_eq, outcome_colorRule_congr hends h]

theorem addStylesheet_colorRule_mixed :
    let v : Text := "#FFF Hsl(1E2 10% 20%) url(RED) \\4Cime !ImporTant"
    let w : Text := "#fFf HSL(1e2 10% 20%) URL(Red) \\4cIME !iMPORtANT"
    ((∀ c ∈ v, c ≠ ';' ∧ c ≠ '\x7b' ∧ c ≠ '\x7d') ∧ asciiLower w = asciiLower v) ∧
    empty.addStylesheet ["color"] (colorRule w) = empty.addStylesheet ["color"] (colorRule v) ∧
    empty.addStylesheet ["color"] (colorRule v) = (⟨[("rgb(255, 255, 255)", 1), ("rgb(49, 56, 46)", 1),
      ("rgb(255, 0, 0)", 1), ("rgb(0, 255, 0)", 1)]⟩, none) ∧
    empty.addStylesheet ["color"] (colorRule "RED\\") = empty.addStylesheet ["color"] (colorRule "Red\\") ∧
    empty.addStylesheet ["color"] (colorRule "Red\\") = (empty, some (.braces .missing)) := by
  intro v w
  have hv : ∀ c ∈ v, c ≠ ';' ∧ c ≠ '\x7b' ∧ c ≠ '\x7d' := by decide +kernel
  have h : asciiLower w = asciiLower v := by decide +kernel
  exact ⟨⟨hv, h⟩, addStylesheet_colorRule_congr empty hv h, by decide +kernel,
    addStylesheet_colorRule_congr empty (by decide) (by decide), by decide +kernel⟩

end Tally

end ColorCensus
