import ColorCensus.Proofs.Text.Case
import ColorCensus.Proofs.Text.Split

namespace ColorCensus.Text

open CodePoint

variable {c : CodePoint} {before s t u : Text}

def blanks : Text := blankRanges.flatMap fun r => block r.1 (r.2 + 1 - r.1)

theorem mem_blanks (h : isBlank c = true) : c ∈ blanks := by
  obtain ⟨r, hr, hc⟩ := List.any_eq_true.mp h
  simp only [Bool.and_eq_true, decide_eq_true_eq] at hc
  exact List.mem_flatMap.mpr ⟨r, hr, mem_block hc.1 (by omega)⟩

theorem lowerForm_of_isBlank (h : isBlank c = true) : c ≠ '\u03a3' ∧ lowerForm c = [c] :=
  (show ∀ c ∈ blanks, c ≠ '\u03a3' ∧ lowerForm c = [c] from by decide +kernel) c (mem_blanks h)

theorem isCased_of_isBlank (h : isBlank c = true) : isCaseIgnorable c = false ∧ isCased c = false :=
  (show ∀ c ∈ blanks, isCaseIgnorable c = false ∧ isCased c = false from by decide +kernel) c (mem_blanks h)

theorem partner_lowerRanges_cases (c : CodePoint) : partner lowerRanges c = c ∨ ∃ r ∈ lowerRanges,
    r.first ≤ c.toNat ∧ c.toNat ≤ r.last ∧ ((partner lowerRanges c).toNat : ℤ) = c.toNat + r.shift := by
  have hranges : ∀ r ∈ lowerRanges, 0 ≤ r.first + r.shift ∧ r.last + r.shift < 0x110000 := by decide +kernel
  rw [partner]
  split
  · next r hr =>
    have hm := List.mem_of_find?_eq_some hr
    obtain ⟨h0, h1⟩ := hranges r hm
    have hc := List.find?_some hr
    simp only [CaseRange.holds, Bool.and_eq_true, decide_eq_true_eq] at hc
    have hn : (r.partner c).toNat = Int.toNat (c.toNat + r.shift) := toNat_ofNat (by omega)
    exact .inr ⟨r, hm, hc.1.1, hc.1.2, by omega⟩
  · exact .inl rfl

theorem isBlank_partner (h : isBlank c = false) : isBlank (partner lowerRanges c) = false := by
  -- the partners of each range lie between two ranges of blanks
  have hranges : ∀ r ∈ lowerRanges, ∀ b ∈ blankRanges, r.last + r.shift < b.1 ∨ b.2 < r.first + r.shift := by
    decide +kernel
  rcases partner_lowerRanges_cases c with hc | ⟨r, hr, hl, hu, hc⟩
  · rwa [hc]
  · rw [isBlank, Ranges.holds, List.any_eq_false]
    intro b hb
    have hb := hranges r hr b hb
    simp only [Bool.and_eq_true, decide_eq_true_eq]
    omega

theorem isBlank_lowerForm (h : isBlank c = false) : ∀ d ∈ lowerForm c, isBlank d = false := by
  rw [lowerForm]
  split
  · simpa using (isCaseless_isBlank c).trans h
  · split
    · decide
    · simpa using isBlank_partner h

theorem lowerForm_of_not_isAscii (h : isAscii c = false) : ∀ d ∈ lowerForm c, 96 < d.toNat := by
  have hranges : ∀ r ∈ lowerRanges, 96 < r.first + r.shift := by decide +kernel
  have hc : ¬ c.toNat < 128 := by simpa [isAscii] using h
  rw [lowerForm, if_neg (by simp [h])]
  split
  · decide
  · simp only [List.mem_singleton, forall_eq]
    rcases partner_lowerRanges_cases c with hp | ⟨r, hr, hl, -, hp⟩
    · rw [hp]
      omega
    · have := hranges r hr
      omega

theorem lowerForm_ne_nil (c : CodePoint) : lowerForm c ≠ [] := by
  rw [lowerForm]
  split
  · exact List.cons_ne_nil _ _
  · split <;> exact List.cons_ne_nil _ _

def IsStripped (s : Text) : Prop :=
  (∀ c ∈ s.head?, isBlank c = false) ∧ ∀ c ∈ s.getLast?, isBlank c = false

theorem dropTrailing_append_of_last {p : CodePoint → Bool} (h : ∀ c ∈ s.getLast?, p c = false) :
    dropTrailing p (s ++ t) = s ++ dropTrailing p t := by
  rw [dropTrailing, dropTrailing, List.reverse_append, List.dropWhile_append]
  split
  · next ht =>
    have hs : s.reverse.dropWhile p = s.reverse := by
      cases hr : s.reverse with
      | nil => rfl
      | cons d r =>
        have hl : d ∈ s.getLast? := by rw [← List.head?_reverse, hr]; rfl
        rw [List.dropWhile_cons_of_neg (by simp [h d hl])]
    rw [List.isEmpty_iff.mp ht, hs, List.reverse_nil, List.append_nil, List.reverse_reverse]
  · rw [List.reverse_append, List.reverse_reverse]

theorem dropTrailing_append_of_forall {p : CodePoint → Bool} (h : ∀ c ∈ t, p c = true) :
    dropTrailing p (s ++ t) = dropTrailing p s := by
  rw [dropTrailing, dropTrailing, List.reverse_append,
    List.dropWhile_append_of_pos fun c hc => h c (List.mem_reverse.mp hc)]

theorem strip_of_isStripped (h : IsStripped s) : strip s = s := by
  have hs : s.dropWhile isBlank = s := by
    cases s with
    | nil => rfl
    | cons c s => exact List.dropWhile_cons_of_neg (by simp [h.1 c rfl])
  have hd : dropTrailing isBlank (s ++ []) = s ++ [] := dropTrailing_append_of_last h.2
  rw [strip, hs]
  rwa [List.append_nil] at hd

theorem strip_append_append (hs : ∀ c ∈ s, isBlank c = true) (hu : ∀ c ∈ u, isBlank c = true) :
    strip (s ++ t ++ u) = strip t := by
  rw [strip, strip, List.append_assoc, List.dropWhile_append_of_pos hs, List.dropWhile_append]
  split
  · next ht => rw [List.dropWhile_eq_nil_iff.mpr hu, List.isEmpty_iff.mp ht]
  · exact dropTrailing_append_of_forall hu

theorem isStripped_strip (s : Text) : IsStripped (strip s) := by
  obtain ⟨r, hr⟩ := dropTrailing_append isBlank (s.dropWhile isBlank)
  constructor
  · intro c hc
    have hd : c ∈ (s.dropWhile isBlank).head? := by
      rw [hr, List.head?_append, Option.mem_def, Option.or_eq_some_iff]
      exact .inl hc
    exact head?_dropWhile hd
  · intro c hc
    rw [strip, dropTrailing, List.getLast?_reverse] at hc
    exact head?_dropWhile hc

theorem exists_strip (s : Text) : ∃ a b, s = a ++ strip s ++ b ∧ (∀ c ∈ a, isBlank c = true) ∧
    ∀ c ∈ b, isBlank c = true := by
  refine ⟨s.takeWhile isBlank, ((s.dropWhile isBlank).reverse.takeWhile isBlank).reverse, ?_,
    fun c hc => List.mem_takeWhile_imp hc, fun c hc => List.mem_takeWhile_imp (List.mem_reverse.mp hc)⟩
  rw [List.append_assoc, strip, dropTrailing, ← List.reverse_append, List.takeWhile_append_dropWhile,
    List.reverse_reverse, List.takeWhile_append_dropWhile]

theorem mem_of_mem_strip (h : c ∈ strip s) : c ∈ s := by
  obtain ⟨a, b, hs, -⟩ := exists_strip s
  rw [hs]
  exact List.mem_append_left b (List.mem_append_right a h)

theorem meetsCased_append (ht : ∀ c ∈ t, isBlank c = true) : meetsCased (s ++ t) = meetsCased s := by
  induction s with
  | nil =>
    cases t with
    | nil => rfl
    | cons c t =>
      obtain ⟨hi, hc⟩ := isCased_of_isBlank (ht c List.mem_cons_self)
      have hm : meetsCased (c :: t) = false := by rw [meetsCased, hi, hc]; rfl
      rw [List.nil_append, hm]
      rfl
  | cons c s ih => rw [List.cons_append, meetsCased, meetsCased, ih]

theorem lowerAfter_append_left (hs : ∀ c ∈ s, isBlank c = true) :
    lowerAfter before (s ++ t) = s ++ lowerAfter (s.reverse ++ before) t := by
  induction s generalizing before with
  | nil => rfl
  | cons c s ih =>
    obtain ⟨hc, hs⟩ := List.forall_mem_cons.mp hs
    obtain ⟨hne, hform⟩ := lowerForm_of_isBlank hc
    rw [List.cons_append, lowerAfter, if_neg hne, hform, ih hs]
    simp

theorem lowerAfter_append_of_isAscii (h : ∀ c ∈ s, isAscii c = true) :
    lowerAfter before (s ++ t) = s.map CodePoint.toLower ++ lowerAfter (s.reverse ++ before) t := by
  induction s generalizing before with
  | nil => rfl
  | cons c s ih =>
    obtain ⟨hc, hs⟩ := List.forall_mem_cons.mp h
    have hne : c ≠ '\u03a3' := by
      rintro rfl
      exact absurd hc (by decide)
    rw [List.cons_append, lowerAfter, if_neg hne, lowerForm_of_isAscii hc, ih hs]
    simp

theorem lowerAfter_append_right (ht : ∀ c ∈ t, isBlank c = true) :
    lowerAfter before (s ++ t) = lowerAfter before s ++ t := by
  induction s generalizing before with
  | nil =>
    have ht : lowerAfter before (t ++ []) = t ++ lowerAfter (t.reverse ++ before) [] := lowerAfter_append_left ht
    simpa [lowerAfter] using ht
  | cons c s ih => rw [List.cons_append, lowerAfter, lowerAfter, ih, sigma, sigma, meetsCased_append ht,
      List.append_assoc]

theorem lowerAfter_append_before (hu : ∀ c ∈ u, isBlank c = true) :
    lowerAfter (before ++ u) s = lowerAfter before s := by
  induction s generalizing before with
  | nil => rfl
  | cons c s ih => rw [lowerAfter, lowerAfter, ← List.cons_append, ih, sigma, sigma, meetsCased_append hu]

theorem lower_append_append (hs : ∀ c ∈ s, isBlank c = true) (hu : ∀ c ∈ u, isBlank c = true) :
    lower (s ++ t ++ u) = s ++ lower t ++ u := by
  have hr : ∀ c ∈ s.reverse, isBlank c = true := fun c hc => hs c (List.mem_reverse.mp hc)
  have hb : lowerAfter ([] ++ s.reverse) t = lower t := lowerAfter_append_before hr
  rw [lower, lowerAfter_append_right hu, lowerAfter_append_left hs, List.append_nil]
  exact congrArg (s ++ · ++ u) hb

theorem exists_lowerAfter_append (before s t : Text) :
    ∃ r, lowerAfter before (s ++ t) = r ++ lowerAfter (s.reverse ++ before) t := by
  induction s generalizing before with
  | nil => exact ⟨[], rfl⟩
  | cons c s ih =>
    obtain ⟨r, hr⟩ := ih (c :: before)
    refine ⟨(if c = '\u03a3' then [sigma before (s ++ t)] else lowerForm c) ++ r, ?_⟩
    rw [List.cons_append, lowerAfter, hr]
    simp

theorem lowerAfter_cons_ends (h : isBlank c = false) (before s : Text) :
    ∃ form, lowerAfter before (c :: s) = form ++ lowerAfter (c :: before) s ∧ form ≠ [] ∧
      ∀ d ∈ form, isBlank d = false := by
  rw [lowerAfter]
  refine ⟨_, rfl, ?_⟩
  split
  · refine ⟨List.cons_ne_nil _ _, fun d hd => ?_⟩
    rw [List.mem_singleton.mp hd, sigma]
    split <;> decide
  · exact ⟨lowerForm_ne_nil c, isBlank_lowerForm h⟩

theorem isStripped_lower (h : IsStripped s) : IsStripped (lower s) := by
  constructor
  · cases s with
    | nil => exact h.1
    | cons c s =>
      obtain ⟨form, hl, h0, hform⟩ := lowerAfter_cons_ends (h.1 c rfl) [] s
      intro d hd
      rw [lower, hl, List.head?_append_of_ne_nil _ h0] at hd
      exact hform d (List.mem_of_mem_head? hd)
  · rcases List.eq_nil_or_concat s with rfl | ⟨t, c, rfl⟩
    · exact h.2
    · obtain ⟨r, hr⟩ := exists_lowerAfter_append [] t [c]
      obtain ⟨form, hl, h0, hform⟩ := lowerAfter_cons_ends (h.2 c (by simp)) (t.reverse ++ []) []
      intro d hd
      rw [lower, List.concat_eq_append, hr, hl, lowerAfter, List.append_nil, List.getLast?_append_of_ne_nil _ h0] at hd
      exact hform d (List.mem_of_mem_getLast? hd)

theorem strip_lower (s : Text) : strip (lower s) = lower (strip s) := by
  obtain ⟨a, b, hs, ha, hb⟩ := exists_strip s
  calc
    strip (lower s) = strip (a ++ lower (strip s) ++ b) := by rw [← lower_append_append ha hb, ← hs]
    _ = strip (lower (strip s)) := strip_append_append ha hb
    _ = lower (strip s) := strip_of_isStripped (isStripped_lower (isStripped_strip s))

end ColorCensus.Text
