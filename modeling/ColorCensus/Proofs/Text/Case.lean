import ColorCensus.Text.Case.Lower
import ColorCensus.Text.Digit
import ColorCensus.Text.Word
import Mathlib.Data.List.Basic

namespace ColorCensus

open Text CodePoint

variable {c d : CodePoint} {s t : Text}

namespace CodePoint

def block (first count : ℕ) : Text := (List.range' first count).map ofNat

theorem ofNat_toNat (c : CodePoint) : ofNat c.toNat = c := by
  cases c with
  | surrogate n =>
    rw [toNat, ofNat, dif_pos (by omega)]
    simp
  | char c =>
    have hv : ¬ (0xD800 ≤ c.toNat ∧ c.toNat < 0xE000) ∧ c.toNat < 0x110000 := by
      have h := c.valid
      simp only [UInt32.isValidChar, Nat.isValidChar] at h
      change c.toNat < 0xD800 ∨ 0xDFFF < c.toNat ∧ c.toNat < 0x110000 at h
      omega
    rw [toNat, ofNat, dif_neg hv.1, if_pos hv.2, Char.ofNat_toNat]

theorem mem_block {first count : ℕ} (h : first ≤ c.toNat) (h' : c.toNat < first + count) :
    c ∈ block first count :=
  List.mem_map.mpr ⟨c.toNat, List.mem_range'_1.mpr ⟨h, h'⟩, ofNat_toNat c⟩

def capitals : Text := block 65 26

theorem toLower_of_not_mem (h : c ∉ capitals) : c.toLower = c := by
  cases c with
  | surrogate n => rfl
  | char c =>
    refine congrArg char (dif_neg ?_)
    rintro ⟨h1, h2⟩
    exact h (mem_block h1 (Nat.lt_succ_of_le h2))

theorem toLower_mem_block (h : c ∈ capitals) : c.toLower ∈ block 97 26 := by
  revert c
  decide

theorem isAlpha_cases (h : c.isAlpha = true) : c ∈ capitals ∨ c ∈ block 97 26 := by
  cases c with
  | surrogate n => cases h
  | char c =>
    have h : (c.isUpper || c.isLower) = true := h
    rcases (Bool.or_eq_true ..).mp h with h | h
    · obtain ⟨h1, h2⟩ : 65 ≤ c.val ∧ c.val ≤ 90 := of_decide_eq_true h
      exact .inl (mem_block h1 (Nat.lt_succ_of_le h2))
    · have h : (decide (97 ≤ c.val) && decide (c.val ≤ 122)) = true := h
      obtain ⟨h1, h2⟩ := (Bool.and_eq_true ..).mp h
      exact .inr (mem_block (of_decide_eq_true h1) (Nat.lt_succ_of_le (of_decide_eq_true h2)))

theorem isWord_of_isAlpha (h : c.isAlpha = true) : isWord c = true := by
  rcases isAlpha_cases h with hm | hm
  · exact (show ∀ c ∈ capitals, isWord c = true from by decide) c hm
  · exact (show ∀ c ∈ block 97 26, isWord c = true from by decide) c hm

theorem forall_toLower {q : CodePoint → CodePoint → Prop} (hc : ∀ c ∈ capitals, q c c.toLower)
    (h : ∀ c, c ∉ capitals → q c c) (c : CodePoint) : q c c.toLower := by
  by_cases hm : c ∈ capitals
  · exact hc c hm
  · rw [toLower_of_not_mem hm]
    exact h c hm

theorem apply_toLower {α : Type} {f : CodePoint → α} (h : ∀ c ∈ capitals, f c.toLower = f c)
    (c : CodePoint) : f c.toLower = f c :=
  forall_toLower (q := fun c d => f d = f c) h (fun _ _ => rfl) c

theorem toLower_toLower (c : CodePoint) : c.toLower.toLower = c.toLower :=
  apply_toLower (by decide) c

def IsCaseFree (d : CodePoint) : Prop := d ∉ capitals ∧ d ∉ block 97 26

instance : DecidablePred IsCaseFree := fun _ => inferInstanceAs (Decidable (_ ∧ _))

theorem toLower_eq_iff (h : IsCaseFree d) : c.toLower = d ↔ c = d := by
  refine forall_toLower (q := fun c e => e = d ↔ c = d) (fun c hc => ?_) (fun _ _ => Iff.rfl) c
  constructor
  · rintro rfl
    exact absurd (toLower_mem_block hc) h.2
  · rintro rfl
    exact absurd hc h.1

theorem beq_toLower (h : IsCaseFree d) : (c.toLower == d) = (c == d) := by
  rw [Bool.eq_iff_iff, beq_iff_eq, beq_iff_eq, toLower_eq_iff h]

end CodePoint

namespace Text

theorem asciiLower_cons (c : CodePoint) (s : Text) : asciiLower (c :: s) = c.toLower :: asciiLower s := rfl

theorem asciiLower_append (s t : Text) : asciiLower (s ++ t) = asciiLower s ++ asciiLower t :=
  List.map_append

theorem asciiLower_asciiLower (s : Text) : asciiLower (asciiLower s) = asciiLower s := by
  rw [asciiLower, asciiLower, List.map_map]
  exact List.map_congr_left fun c _ => c.toLower_toLower

def IsCaseless (p : CodePoint → Bool) : Prop := ∀ c : CodePoint, p c.toLower = p c

theorem isCaseless {p : CodePoint → Bool} (h : ∀ c ∈ capitals, p c.toLower = p c) : IsCaseless p :=
  apply_toLower h

section

variable {p : CodePoint → Bool} (hp : IsCaseless p)

include hp

theorem IsCaseless.comp : p ∘ toLower = p := funext hp

theorem takeWhile_asciiLower (s : Text) :
    (asciiLower s).takeWhile p = asciiLower (s.takeWhile p) := by
  rw [asciiLower, List.takeWhile_map, IsCaseless.comp hp]
  rfl

theorem dropWhile_asciiLower (s : Text) :
    (asciiLower s).dropWhile p = asciiLower (s.dropWhile p) := by
  rw [asciiLower, List.dropWhile_map, IsCaseless.comp hp]
  rfl

theorem any_head?_asciiLower (s : Text) : (asciiLower s).head?.any p = s.head?.any p := by
  cases s with
  | nil => rfl
  | cons c s => exact hp c

theorem takeRun_asciiLower (limit : ℕ) (s : Text) :
    takeRun limit p (asciiLower s) =
      (asciiLower (takeRun limit p s).1, asciiLower (takeRun limit p s).2) := by
  induction s generalizing limit with
  | nil => cases limit <;> rfl
  | cons c s ih =>
    cases limit with
    | zero => rfl
    | succ limit =>
      rw [asciiLower_cons, takeRun, takeRun, hp c, ih]
      split <;> rfl

end

theorem isCaseless_isDigit : IsCaseless CodePoint.isDigit := isCaseless (by decide)

theorem drop_asciiLower (n : ℕ) (s : Text) : (asciiLower s).drop n = asciiLower (s.drop n) :=
  List.map_drop.symm

theorem take_asciiLower (n : ℕ) (s : Text) : (asciiLower s).take n = asciiLower (s.take n) :=
  List.map_take.symm

theorem head?_asciiLower (h : IsCaseFree d) : (asciiLower s).head? = some d ↔ s.head? = some d := by
  cases s with
  | nil => rfl
  | cons c s =>
    rw [asciiLower_cons, List.head?_cons, List.head?_cons, Option.some.injEq, Option.some.injEq,
      toLower_eq_iff h]

theorem head_pair_asciiLower {a b : CodePoint} (ha : IsCaseFree a) (hb : IsCaseFree b) :
    c.toLower = a ∧ (asciiLower s).head? = some b ↔ c = a ∧ s.head? = some b :=
  and_congr (toLower_eq_iff ha) (head?_asciiLower hb)

theorem startsWith_asciiLower {u : Text} (hu : ∀ d ∈ u, IsCaseFree d) (s : Text) :
    startsWith u (asciiLower s) = startsWith u s := by
  induction u generalizing s with
  | nil => rfl
  | cons d u ih =>
    obtain ⟨hd, hu⟩ := List.forall_mem_cons.mp hu
    cases s with
    | nil => rfl
    | cons c s =>
      have ih := ih hu s
      simp only [startsWith] at ih
      rw [asciiLower_cons, startsWith, startsWith, List.isPrefixOf_cons_cons, List.isPrefixOf_cons_cons,
        ih, BEq.comm, beq_toLower hd, BEq.comm]

theorem asciiLower_cons_congr (hc : d.toLower = c.toLower) (hs : asciiLower t = asciiLower s) :
    asciiLower (d :: t) = asciiLower (c :: s) := by
  rw [asciiLower_cons, asciiLower_cons, hc, hs]

theorem asciiLower_append_congr {s' t' : Text} (hs : asciiLower s' = asciiLower s)
    (ht : asciiLower t' = asciiLower t) : asciiLower (s' ++ t') = asciiLower (s ++ t) := by
  rw [asciiLower_append, asciiLower_append, hs, ht]

theorem asciiLower_flatMap {g : CodePoint → Text}
    (hg : ∀ c ∈ capitals, asciiLower (g c.toLower) = asciiLower (g c)) (s : Text) :
    asciiLower ((asciiLower s).flatMap g) = asciiLower (s.flatMap g) := by
  induction s with
  | nil => rfl
  | cons c s ih =>
    rw [asciiLower_cons, List.flatMap_cons, List.flatMap_cons]
    exact asciiLower_append_congr (apply_toLower (f := fun c => asciiLower (g c)) hg c) ih

theorem length_eq_of_asciiLower_eq (h : asciiLower t = asciiLower s) : t.length = s.length := by
  simpa [asciiLower] using congrArg List.length h

theorem hexDigit_toLower (c : CodePoint) : hexDigit c.toLower = hexDigit c := apply_toLower (by decide) c

theorem isCaseless_isHex : IsCaseless isHex := isCaseless (by decide)

theorem ofHex_asciiLower (s : Text) : ofHex (asciiLower s) = ofHex s := by
  rw [ofHex, ofHex, ofDigits, ofDigits, asciiLower, List.foldl_map]
  simp only [hexDigit_toLower]

theorem ofHex_congr (h : asciiLower t = asciiLower s) : ofHex t = ofHex s := by
  rw [← ofHex_asciiLower, h, ofHex_asciiLower]

theorem ofHex_append_congr {text text' : Text} (h : asciiLower text' = asciiLower text) (hs : asciiLower t = asciiLower s)
    (c : CodePoint) : ofHex (text' ++ t.map fun _ => c) = ofHex (text ++ s.map fun _ => c) := by
  refine ofHex_congr ?_
  rw [asciiLower_append, asciiLower_append, h, List.map_const', List.map_const',
    length_eq_of_asciiLower_eq hs]

theorem isCaseless_isBlank : IsCaseless isBlank := isCaseless (by decide)

theorem strip_asciiLower (s : Text) : strip (asciiLower s) = asciiLower (strip s) := by
  rw [strip, strip, dropWhile_asciiLower isCaseless_isBlank, dropTrailing, dropTrailing, asciiLower,
    ← List.map_reverse]
  exact (congrArg List.reverse (dropWhile_asciiLower isCaseless_isBlank _)).trans List.map_reverse.symm

theorem meetsCased_asciiLower (s : Text) : meetsCased (asciiLower s) = meetsCased s := by
  have hi : IsCaseless isCaseIgnorable := isCaseless (by decide)
  have hc : IsCaseless isCased := isCaseless (by decide)
  induction s with
  | nil => rfl
  | cons c s ih => rw [asciiLower_cons, meetsCased, meetsCased, ih, hi c, hc c]

theorem lowerAfter_asciiLower (before s : Text) :
    lowerAfter (asciiLower before) (asciiLower s) = lowerAfter before s := by
  have hform (c : CodePoint) : lowerForm c.toLower = lowerForm c := apply_toLower (by decide) c
  induction s generalizing before with
  | nil => rfl
  | cons c s ih =>
    have hs : c.toLower = '\u03a3' ↔ c = '\u03a3' := toLower_eq_iff (by decide)
    rw [asciiLower_cons, lowerAfter, lowerAfter, hform, sigma, sigma, meetsCased_asciiLower,
      meetsCased_asciiLower, ← asciiLower_cons, ih]
    simp only [hs]

theorem lower_asciiLower (s : Text) : lower (asciiLower s) = lower s := lowerAfter_asciiLower [] s

theorem lower_strip_congr (h : asciiLower t = asciiLower s) : lower (strip t) = lower (strip s) := by
  rw [← lower_asciiLower, ← strip_asciiLower, h, strip_asciiLower, lower_asciiLower]

end Text

end ColorCensus
