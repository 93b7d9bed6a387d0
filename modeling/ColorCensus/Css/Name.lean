import ColorCensus.Css.Read

namespace ColorCensus.Css

open Text

def isNameStart (c : CodePoint) : Bool := c.isAlpha || c == '_' || decide (127 < c.toNat)

def isNameChar (c : CodePoint) : Bool := isNameStart c || c.isDigit || c == '-'

def isSpace (c : CodePoint) : Bool := c == ' ' || c == '\n' || c == '\t'

theorem isNameChar_of_isNameStart {c : CodePoint} (h : isNameStart c = true) : isNameChar c = true := by
  simp [isNameChar, h]

def startsLine : Text → Bool
  | '\n' :: _ => true
  | _ => false

def escapedPoint (n : Nat) : CodePoint := if n = 0 then '\ufffd' else .ofNat n

def readEscape : Text → Read CodePoint
  | [] => ⟨'\ufffd', 0, []⟩
  | c :: s =>
    if isHex c then
      let digits := Read.run 6 isHex (c :: s)
      let space := Read.run 1 isSpace digits.rest
      ⟨escapedPoint (ofHex digits.value), digits.width + space.width, space.rest⟩
    else ⟨c, 1, s⟩

theorem readEscape_spans (s : Text) : (readEscape s).Spans s := by
  cases s with
  | nil => rfl
  | cons c s =>
    by_cases hc : isHex c = true
    · have h1 := Read.run_spans 6 isHex (c :: s)
      have h2 := Read.run_spans 1 isSpace (Read.run 6 isHex (c :: s)).rest
      simp only [readEscape, hc, if_true, Read.Spans] at h1 h2 ⊢
      omega
    · simp only [readEscape, hc, Read.Spans, List.length_cons, Bool.false_eq_true, if_false]
      omega

def readName : Text → Read Text
  | [] => ⟨[], 0, []⟩
  | c :: s =>
    if isNameChar c then ((readName s).widen 1).map (c :: ·)
    else if c = '\\' ∧ startsLine s = false then
      have := (readEscape_spans s).rest_length_le
      ((readName (readEscape s).rest).widen (1 + (readEscape s).width)).map ((readEscape s).value :: ·)
    else ⟨[], 0, c :: s⟩
termination_by s => s.length
decreasing_by all_goals simp_all only [List.length_cons]; omega

theorem readName_spans (s : Text) : (readName s).Spans s := by
  fun_induction readName s with
  | case1 => rfl
  | case2 c s _ ih => exact (ih.widen rfl).map _
  | case3 c s _ _ _ ih =>
    refine (ih.widen ?_).map _
    have h := readEscape_spans s
    simp only [Read.Spans, List.length_cons] at h ⊢
    omega
  | case4 c s => simp [Read.Spans]

def startsEscape : Text → Bool
  | '\\' :: s => !startsLine s
  | _ => false

def startsIdentifier : Text → Bool
  | [] => false
  | '-' :: s =>
    startsEscape s ||
      match s with
      | c :: _ => isNameStart c || c == '-'
      | [] => false
  | c :: s => isNameStart c || startsEscape (c :: s)

theorem readName_width_ne_zero {s : Text} (h : startsIdentifier s = true) :
    (readName s).width ≠ 0 := by
  cases s with
  | nil => simp [startsIdentifier] at h
  | cons c s =>
    rw [readName]
    split
    · simp [Read.map, Read.widen]
    · next hc =>
      split
      · simp only [Read.map, Read.widen]
        omega
      · next he =>
        exfalso
        by_cases hd : c = '-'
        · subst hd
          exact hc rfl
        · have hn : ¬ isNameStart c = true := fun hn => hc (isNameChar_of_isNameStart hn)
          simp only [startsIdentifier, hn, Bool.false_or] at h
          unfold startsEscape at h
          split at h
          · next heq =>
            obtain ⟨rfl, rfl⟩ := List.cons.inj heq
            exact he ⟨rfl, by simpa using h⟩
          · simp at h

end ColorCensus.Css
