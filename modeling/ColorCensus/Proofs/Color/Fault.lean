import ColorCensus.Proofs.Color.Range
import ColorCensus.Proofs.Css.EmptyCall

namespace ColorCensus.Color

open Text Css CodePoint Number Binary64

variable {s t : Text} {f : Fault}

def NamesNoSpace (t : Text) : Prop := ∃ name, asciiLower name = "color" ∧ IsEmptyCall name (clean (lower (strip t)))

theorem NamesNoSpace.mem (h : NamesNoSpace t) : char '(' ∈ lower (strip t) := by
  obtain ⟨name, -, hcall⟩ := h
  by_contra hp
  exact forall_mem_clean (q := (· ≠ char '(')) (fun c hc he => hp (he ▸ hc)) (by decide) (by decide) _ hcall.mem rfl

theorem nodeShade_function_eq_error_iff {name : Text} {p : Position} {arguments : List Node} {closed : Bool} :
    nodeShade (.function p name arguments closed) = .error f ↔
      asciiLower name = "color" ∧ ∀ m ∈ arguments, m.isSpace = true := by
  rw [← Node.filter_not_isSpace_eq_nil_iff, nodeShade]
  by_cases hname : asciiLower name = "color"
  · rw [if_pos hname]
    cases arguments.filter fun m => !m.isSpace <;> simp [hname]
  · simp [hname]

theorem shade_eq_error_iff : shade s = .error f ↔ ∃ name, asciiLower name = "color" ∧ IsEmptyCall name (clean s) := by
  have hurl {name : Text} (h : asciiLower name = "color") : asciiLower name ≠ "url" := by
    rw [h]
    decide
  constructor
  · intro h
    unfold shade at h
    split at h
    · next m hread =>
      cases m with
      | token p t => cases t <;> cases h
      | function p name arguments closed =>
        obtain ⟨hname, harguments⟩ := nodeShade_function_eq_error_iff.mp h
        exact ⟨name, hname, (isEmptyCall_iff (hurl hname)).mpr ⟨p, arguments, closed, hread, harguments⟩⟩
      | block p b content closed => cases h
    · cases h
  · rintro ⟨name, hname, hcall⟩
    obtain ⟨p, arguments, closed, hread, harguments⟩ := (isEmptyCall_iff (hurl hname)).mp hcall
    rw [shade, hread]
    exact nodeShade_function_eq_error_iff.mpr ⟨hname, harguments⟩

theorem map_eq_error_iff {ε α β : Type} {g : α → β} {x : Except ε α} {e : ε} : x.map g = .error e ↔ x = .error e := by
  cases x <;> simp [Except.map]

theorem read_eq_error_iff : read t = .error f ↔ NamesNoSpace t := by
  rw [read]
  split
  · next h0 =>
    refine iff_of_false nofun fun h => ?_
    have hmem := h.mem
    rw [h0] at hmem
    cases hmem
  · split
    · rw [map_eq_error_iff, shade_eq_error_iff, NamesNoSpace]
    · next hmark =>
      have hno : ¬ NamesNoSpace t := fun h => hmark (by simp [h.mem])
      split
      · exact iff_of_false nofun hno
      · exact iff_of_false nofun hno

theorem normalize_eq_error_iff : normalize t = .error f ↔ NamesNoSpace t := by
  rw [normalize, map_eq_error_iff, read_eq_error_iff]

theorem isFinite_rounded (x : Binary64) : ((x.unitClamp * 255).round 6 + Fractions.half).isFinite = true ∧
    (x.unitClamp.round Rgba.alphaPlaces).isFinite = true := by
  obtain ⟨q, hq, h0, h1⟩ := unitClamp_bounds x
  obtain ⟨k, hk, hround⟩ := Rgba.round_unitClamp x
  rw [rounded_eq h0 h1 hq, hround, Rgba.opacity_eq hk]
  exact ⟨rfl, rfl⟩

theorem fault_iff (t : Text) (f : Fault) : (read t = .error f ↔ NamesNoSpace t) ∧
    (normalize t = .error f ↔ NamesNoSpace t) ∧
      ∀ x : Binary64, ((x.unitClamp * 255).round 6 + Fractions.half).isFinite = true ∧
        (x.unitClamp.round Rgba.alphaPlaces).isFinite = true :=
  ⟨read_eq_error_iff, normalize_eq_error_iff, isFinite_rounded⟩

theorem normalize_color_call : normalize "color()" = .error .noSpace := by
  have hname : readName "color()" = ⟨"color", 5, "()"⟩ :=
    readName_append (t := "color") (s := "()") (by decide) (by decide)
  have hcall : IsEmptyCall "color" "color()" := .call .nil (by decide) hname (.closed .nil (.ended .nil))
  have hclean : clean (lower (strip "color()")) = "color()" := by decide
  refine normalize_eq_error_iff.mpr ⟨"color", by decide, ?_⟩
  rw [hclean]
  exact hcall

end ColorCensus.Color
