import ColorCensus.Proofs.Color.Written

namespace ColorCensus

open Text CodePoint Css

variable {c : CodePoint} {s t r w u : Text} {k n : ℕ} {q : ℚ}

namespace Text

theorem decimalDigit_lt (c : CodePoint) : (decimalDigit c).getD 0 < 10 := by
  cases hd : c.isDigit with
  | true =>
    obtain ⟨n, rfl⟩ := exists_of_isDigit hd
    exact (show ∀ n : Fin 10, (decimalDigit (char (Char.ofNat (48 + n)))).getD 0 < 10 by decide) n
  | false =>
    cases c with
    | char c => simp [decimalDigit, show c.isDigit = false from hd]
    | surrogate n => simp [decimalDigit]

theorem ofDecimal_cons (c : CodePoint) (s : Text) :
    ofDecimal (c :: s) = (decimalDigit c).getD 0 * 10 ^ s.length + ofDecimal s := by
  have hc : ofDecimal [c] = (decimalDigit c).getD 0 := by simp [ofDecimal, ofDigits]
  rw [← List.singleton_append, ofDecimal_append, hc]

theorem ofDecimal_lt (s : Text) : ofDecimal s < 10 ^ s.length := by
  induction s with
  | nil => decide
  | cons c s ih =>
    have hc := decimalDigit_lt c
    rw [ofDecimal_cons, List.length_cons, pow_succ]
    calc (decimalDigit c).getD 0 * 10 ^ s.length + ofDecimal s
        < (decimalDigit c).getD 0 * 10 ^ s.length + 10 ^ s.length := by omega
      _ = ((decimalDigit c).getD 0 + 1) * 10 ^ s.length := by ring
      _ ≤ 10 * 10 ^ s.length := Nat.mul_le_mul_right _ hc
      _ = 10 ^ s.length * 10 := Nat.mul_comm _ _

theorem decimalDigit_inj {c d : CodePoint} (hc : c.isDigit = true) (hd : d.isDigit = true)
    (h : (decimalDigit c).getD 0 = (decimalDigit d).getD 0) : c = d := by
  obtain ⟨m, rfl⟩ := exists_of_isDigit hc
  obtain ⟨n, rfl⟩ := exists_of_isDigit hd
  clear hc hd
  revert m n
  decide

theorem ofDecimal_inj (hs : ∀ c ∈ s, c.isDigit = true) (ht : ∀ c ∈ t, c.isDigit = true)
    (hl : s.length = t.length) (h : ofDecimal s = ofDecimal t) : s = t := by
  induction s generalizing t with
  | nil => exact (List.length_eq_zero_iff.mp hl.symm).symm
  | cons c s ih =>
    cases t with
    | nil => cases hl
    | cons d t =>
      obtain ⟨hc, hs⟩ := List.forall_mem_cons.mp hs
      obtain ⟨hd, ht⟩ := List.forall_mem_cons.mp ht
      have hl : s.length = t.length := Nat.succ.inj hl
      have hlt := ofDecimal_lt s
      have hlt' := ofDecimal_lt t
      rw [ofDecimal_cons, ofDecimal_cons, ← hl] at h
      rw [← hl] at hlt'
      have hpos : 0 < 10 ^ s.length := by positivity
      have hdiv := congrArg (· / 10 ^ s.length) h
      have hmod := congrArg (· % 10 ^ s.length) h
      simp only [Nat.mul_comm _ (10 ^ s.length), Nat.mul_add_div hpos, Nat.mul_add_mod, Nat.div_eq_of_lt hlt,
        Nat.div_eq_of_lt hlt', Nat.mod_eq_of_lt hlt, Nat.mod_eq_of_lt hlt', Nat.add_zero] at hdiv hmod
      rw [decimalDigit_inj hc hd hdiv, ih hs ht hl hmod]

end Text

namespace Decimal

def toRat (d : Decimal) : ℚ := (if d.negative then -1 else 1) * d.digits * (10 : ℚ) ^ d.exponent

theorem read_point (hs : ∀ c ∈ s, c.isDigit = true) (ht : ∀ c ∈ t, c.isDigit = true) :
    read (s ++ char '.' :: t) = ⟨false, ofDecimal (s ++ t), -t.length⟩ := by
  have hsign : readSign (s ++ char '.' :: t) = (false, s ++ char '.' :: t) := by
    unfold readSign
    split
    · next h => cases s with
      | nil => cases h
      | cons c s => exact absurd (hs '-' (by rw [(List.cons.inj h).1]; simp)) (by decide)
    · next h => cases s with
      | nil => cases h
      | cons c s => exact absurd (hs '+' (by rw [(List.cons.inj h).1]; simp)) (by decide)
    · rfl
  have hpoint : ∀ c ∈ (char '.' :: t).head?, c.isDigit = false := by
    rintro c ⟨⟩
    decide
  have hwhole : (s ++ char '.' :: t).takeWhile CodePoint.isDigit = s := takeWhile_append_of_head? hs hpoint
  have hrest : (s ++ char '.' :: t).dropWhile CodePoint.isDigit = char '.' :: t := by
    rw [List.dropWhile_append_of_pos hs]
    rfl
  unfold read
  simp only [hsign, hwhole, hrest, takeWhile_isDigit ht, dropWhile_isDigit ht, readExponent, zero_sub]

end Decimal

namespace Css

theorem Numeral.exists_places (h : Numeral r) : ∃ w u : Text, w ≠ [] ∧ (∀ c ∈ w ++ u, c.isDigit = true) ∧
    r = (if u = [] then w else w ++ char '.' :: u) ∧
    (Decimal.read r).toRat = ofDecimal (w ++ u) / 10 ^ u.length := by
  cases h with
  | whole c s h =>
    refine ⟨c :: s, [], by simp, by simpa using h, rfl, ?_⟩
    rw [Decimal.read_digits h, Decimal.toRat]
    simp
  | fraction c s t h ht h0 =>
    refine ⟨c :: s, t, by simp, List.forall_mem_append.mpr ⟨h, ht⟩, (if_neg h0).symm, ?_⟩
    rw [Decimal.read_point h ht, Decimal.toRat]
    simp [zpow_neg, div_eq_mul_inv]

structure IsShortest (q : ℚ) (r : Text) : Prop where
  numeral : Numeral r
  value : (Decimal.read r).toRat = q
  least : ∀ s, Numeral s → (Decimal.read s).toRat = q → r.length ≤ s.length

end Css

namespace Rgba

theorem getLast?_opacityText (h0 : 0 < k) : (opacityText k).getLast? ≠ some (char '0') := by
  obtain ⟨z, hz⟩ := dropTrailing_spec (char '0') (natural k)
  have hne : dropTrailing (· = char '0') (natural k) ≠ [] := by
    intro hd
    rw [hd, List.nil_append] at hz
    have hk := ofDecimal_natural k
    rw [hz, ofDecimal_zeros] at hk
    omega
  intro hl
  rw [opacityText, if_neg h0.ne', List.getLast?_append_of_ne_nil _ hne, dropTrailing, List.getLast?_reverse] at hl
  have hlast := head?_dropWhile hl
  exact absurd hlast (by decide)

theorem opacityText_eq_concat (h0 : 0 < k) (h : k < 1000) : ∃ (s : Text) (c : CodePoint),
    opacityText k = char '0' :: char '.' :: (s ++ [c]) ∧ (∀ d ∈ s ++ [c], d.isDigit = true) ∧ s.length < 3 ∧
      c ≠ '0' ∧ ofDecimal (s ++ [c]) * 10 ^ (2 - s.length) = k := by
  obtain ⟨digits, hne, hl, hd, ht, hk⟩ := opacityText_of_pos h0 h
  obtain ⟨s, c, rfl⟩ := (List.eq_nil_or_concat digits).resolve_left hne
  rw [List.concat_eq_append, List.length_append, List.length_singleton] at hl hk
  refine ⟨s, c, by simpa using ht, by simpa using hd, by omega, ?_, ?_⟩
  · rintro rfl
    refine getLast?_opacityText h0 ?_
    rw [ht, List.concat_eq_append, List.getLast?_cons_cons, List.getLast?_cons_of_ne_nil (by simp)]
    simp
  · rwa [show 3 - (s.length + 1) = 2 - s.length by omega] at hk

theorem ofDecimal_concat_ne_zero (hc : c.isDigit = true) (h0 : c ≠ '0') : ¬ 10 ∣ ofDecimal (s ++ [c]) := by
  obtain ⟨n, rfl⟩ := exists_of_isDigit hc
  have hn : ofDecimal [char (Char.ofNat (48 + n))] = n := by
    clear hc h0
    revert n
    decide
  have hpos : (n : ℕ) ≠ 0 := by
    intro hz
    rw [hz] at h0
    exact h0 rfl
  rw [ofDecimal_append, hn, List.length_singleton, pow_one]
  omega

theorem ofDecimal_zero_cons (s : Text) : ofDecimal (char '0' :: s) = ofDecimal s := by
  rw [ofDecimal_cons, show (decimalDigit (char '0')).getD 0 = 0 from rfl, Nat.zero_mul, Nat.zero_add]

theorem places_le {m n x y : ℕ} (h : x * 10 ^ n = y * 10 ^ m) (hx : ¬ 10 ∣ x) : m ≤ n := by
  by_contra hlt
  obtain ⟨j, rfl⟩ : ∃ j, m = n + (j + 1) := ⟨m - n - 1, by omega⟩
  rw [pow_add, Nat.mul_comm (10 ^ n), ← Nat.mul_assoc, Nat.mul_left_inj (by positivity)] at h
  exact hx ⟨y * 10 ^ j, by rw [h, pow_succ]; ring⟩

theorem eq_opacityText (h : k < 1000) (hr : Numeral r) (hv : (Decimal.read r).toRat = k / 1000) :
    (opacityText k).length ≤ r.length ∧ (r.length ≤ (opacityText k).length → r = opacityText k) := by
  obtain ⟨w, u, hw, hd, rfl, hval⟩ := hr.exists_places
  have hwl := List.length_pos_iff.mpr hw
  rw [hv, div_eq_div_iff (by norm_num) (by positivity)] at hval
  have hval : k * 10 ^ u.length = ofDecimal (w ++ u) * 1000 := by exact_mod_cast hval
  rcases Nat.eq_zero_or_pos k with rfl | h0
  · have hzero : ofDecimal (w ++ u) = ofDecimal [char '0'] := by
      rw [ofDecimal_zero_cons, show ofDecimal [] = 0 from rfl]
      omega
    rw [opacityText_zero, List.length_singleton]
    by_cases hu : u = []
    · subst hu
      rw [if_pos rfl]
      rw [List.append_nil] at hd hzero
      exact ⟨hwl, fun hle => ofDecimal_inj hd (by simp; decide) (le_antisymm hle hwl) hzero⟩
    · have hul := List.length_pos_iff.mpr hu
      rw [if_neg hu, List.length_append, List.length_cons]
      exact ⟨by omega, fun hle => by omega⟩
  · obtain ⟨s, c, ht, hs, hl, hc, hk⟩ := opacityText_eq_concat h0 h
    have hscale : ofDecimal (s ++ [c]) * 10 ^ u.length = ofDecimal (w ++ u) * 10 ^ (s.length + 1) := by
      have hsplit : 1000 = 10 ^ (s.length + 1) * 10 ^ (2 - s.length) := by
        rw [← pow_add, show s.length + 1 + (2 - s.length) = 3 by omega]
        norm_num
      rw [← hk, hsplit] at hval
      refine Nat.eq_of_mul_eq_mul_right (by positivity : 0 < 10 ^ (2 - s.length)) ?_
      linarith
    -- without zeros at its end, the printed form has the fewest places
    have hplaces := places_le hscale (ofDecimal_concat_ne_zero (hs c (by simp)) hc)
    have hu : u ≠ [] := by
      rintro rfl
      simp at hplaces
    rw [if_neg hu, ht]
    simp only [List.length_append, List.length_cons, List.length_nil]
    refine ⟨by omega, fun hle => ?_⟩
    obtain ⟨d, rfl⟩ := List.length_eq_one_iff.mp (show w.length = 1 by omega)
    have hlen : u.length = s.length + 1 := by omega
    rw [hlen, Nat.mul_left_inj (by positivity)] at hscale
    have heq : [d] ++ u = char '0' :: (s ++ [c]) := by
      refine ofDecimal_inj hd (List.forall_mem_cons.mpr ⟨by decide, hs⟩) (by simp [hlen]) ?_
      rw [ofDecimal_zero_cons, hscale]
    obtain ⟨rfl, rfl⟩ := List.cons.inj heq
    rfl

theorem toRat_opacityText (h : k < 1000) : (Decimal.read (opacityText k)).toRat = k / 1000 := by
  rcases Nat.eq_zero_or_pos k with rfl | h0
  · decide +kernel
  · obtain ⟨digits, -, hl, hd, ht, hk⟩ := opacityText_of_pos h0 h
    have hp : (10 : ℚ) ^ (3 - digits.length) * 10 ^ digits.length = 1000 := by
      rw [← pow_add, Nat.sub_add_cancel hl]
      norm_num
    rw [ht, Decimal.read_fraction hd, Decimal.toRat, ← hk]
    push_cast
    rw [zpow_neg, zpow_natCast, div_eq_mul_inv, ← hp]
    field_simp

theorem isShortest_iff (h : k < 1000) : IsShortest (k / 1000) r ↔ r = opacityText k := by
  have hn : Numeral (opacityText k) := Color.numeral_opacityText h
  refine ⟨fun hr => ?_, ?_⟩
  · exact (eq_opacityText h hr.numeral hr.value).2 (hr.least _ hn (toRat_opacityText h))
  · rintro rfl
    exact ⟨hn, toRat_opacityText h, fun s hs hv => (eq_opacityText h hs hv).1⟩

end Rgba

end ColorCensus
