import ColorCensus.Proofs.Outcome
import ColorCensus.Text.Digit
import Mathlib.Algebra.Order.Ring.Nat
import Mathlib.Data.List.TakeWhile
import Mathlib.Tactic.Positivity
import Mathlib.Tactic.Ring

namespace ColorCensus.Text

theorem natural_ne_nil (n : ℕ) : natural n ≠ [] := by
  simp [natural]

theorem isDigit_of_mem_natural {n : ℕ} {c : CodePoint} (h : c ∈ natural n) : c.isDigit = true := by
  obtain ⟨d, hd, rfl⟩ := List.mem_map.mp h
  exact Nat.isDigit_of_mem_toDigits (by decide) (by decide) hd

theorem exists_of_isDigit {c : CodePoint} (h : c.isDigit = true) :
    ∃ n : Fin 10, c = .char (Char.ofNat (48 + n)) := by
  cases c with
  | surrogate n => cases h
  | char c =>
    have hd : c.isDigit = true := h
    simp only [Char.isDigit, Bool.and_eq_true, decide_eq_true_eq, ge_iff_le,
      UInt32.le_iff_toNat_le] at hd
    change 48 ≤ c.toNat ∧ c.toNat ≤ 57 at hd
    refine ⟨⟨c.toNat - 48, by omega⟩, ?_⟩
    rw [show 48 + (c.toNat - 48) = c.toNat from by omega, Char.ofNat_toNat]

theorem natural_zero : natural 0 = [CodePoint.char '0'] := by
  rw [natural, Nat.toDigits_zero]
  rfl

theorem ofDecimal_eq_foldl (s : Text) (n : ℕ) :
    s.foldl (fun n c => n * 10 + (decimalDigit c).getD 0) n = n * 10 ^ s.length + ofDecimal s := by
  induction s generalizing n with
  | nil => simp [ofDecimal, ofDigits]
  | cons c s ih =>
    have hs := ih ((decimalDigit c).getD 0)
    rw [ofDecimal, ofDigits, List.foldl_cons, List.foldl_cons, ih, zero_mul, zero_add, hs,
      List.length_cons, pow_succ]
    ring

theorem ofDecimal_append (s t : Text) :
    ofDecimal (s ++ t) = ofDecimal s * 10 ^ t.length + ofDecimal t := by
  rw [ofDecimal, ofDigits, List.foldl_append]
  exact ofDecimal_eq_foldl t (ofDecimal s)

theorem ofDecimal_zeros (n : ℕ) : ofDecimal (copies n '0') = 0 := by
  induction n with
  | zero => rfl
  | succ n ih =>
    have hc : copies (n + 1) (CodePoint.char '0') = [CodePoint.char '0'] ++ copies n '0' := rfl
    have h0 : ofDecimal [CodePoint.char '0'] = 0 := by decide
    rw [hc, ofDecimal_append, ih, h0, zero_mul]

theorem ofDecimal_map_char {s : List Char} (h : ∀ c ∈ s, c.isDigit = true) (n : ℕ) :
    (s.map CodePoint.char).foldl (fun n c => n * 10 + (decimalDigit c).getD 0) n =
      Nat.ofDigitChars 10 s n := by
  induction s generalizing n with
  | nil => rfl
  | cons c s ih =>
    have hc : decimalDigit (.char c) = some (c.toNat - '0'.toNat) := by
      rw [decimalDigit, if_pos (h c (by simp))]
    rw [List.map_cons, List.foldl_cons, hc, ih fun d hd => h d (by simp [hd]), Nat.ofDigitChars_cons,
      Option.getD_some, mul_comm]

theorem ofDecimal_natural (n : ℕ) : ofDecimal (natural n) = n := by
  have hd : ∀ c ∈ Nat.toDigits 10 n, c.isDigit = true := fun c hc =>
    Nat.isDigit_of_mem_toDigits (by decide) (by decide) hc
  rw [ofDecimal, ofDigits, natural, ofDecimal_map_char hd, Nat.ofDigitChars_ten_toDigits]

theorem natural_mul_ten {n : ℕ} (h : 0 < n) : natural (n * 10) = natural n ++ [CodePoint.char '0'] := by
  have hd := Nat.toDigits_append_toDigits (b := 10) (d := 0) (by decide) h (by decide)
  rw [natural, natural, mul_comm, ← Nat.add_zero (10 * n), ← hd, List.map_append, Nat.toDigits_zero]
  rfl

theorem natural_mul_pow {n : ℕ} (h : 0 < n) (k : ℕ) :
    natural (n * 10 ^ k) = natural n ++ copies k '0' := by
  induction k with
  | zero => simp [copies]
  | succ k ih =>
    rw [pow_succ, ← mul_assoc, natural_mul_ten (by positivity), ih, List.append_assoc, copies, copies,
      List.replicate_succ']

theorem length_natural_le_iff {n k : ℕ} (h : 0 < k) : (natural n).length ≤ k ↔ n < 10 ^ k := by
  rw [natural, List.length_map]
  exact Nat.length_toDigits_le_iff (by decide) h

theorem length_natural_eq {n k : ℕ} (hl : 10 ^ k ≤ n) (hu : n < 10 ^ (k + 1)) :
    (natural n).length = k + 1 := by
  have hle := (length_natural_le_iff (Nat.succ_pos k)).mpr hu
  rcases Nat.eq_zero_or_pos k with rfl | hk
  · have := List.length_pos_iff.mpr (natural_ne_nil n)
    omega
  · have hnot := (length_natural_le_iff (n := n) hk).not.mpr (by omega)
    omega

theorem dropTrailing_append_copies (s : Text) (n : ℕ) (c : CodePoint) :
    dropTrailing (· = c) (s ++ copies n c) = dropTrailing (· = c) s := by
  induction n with
  | zero => simp [copies]
  | succ n ih =>
    rw [← ih, copies, List.replicate_succ', ← List.append_assoc, dropTrailing, List.reverse_append]
    simp [dropTrailing, copies]

theorem dropTrailing_spec (c : CodePoint) (s : Text) :
    ∃ n, s = dropTrailing (· = c) s ++ copies n c := by
  refine ⟨(s.reverse.takeWhile (· = c)).length, ?_⟩
  have hr : s.reverse.takeWhile (· = c) = copies (s.reverse.takeWhile (· = c)).length c := by
    refine List.eq_replicate_iff.mpr ⟨rfl, fun d hd => ?_⟩
    simpa using List.mem_takeWhile_imp hd
  have hs := congrArg List.reverse (List.takeWhile_append_dropWhile (p := (· = c)) (l := s.reverse))
  rw [List.reverse_append, List.reverse_reverse, hr] at hs
  rw [dropTrailing]
  simpa [copies] using hs.symm

namespace DigitLimit

variable {α : Type} {limit : DigitLimit} {numbers : List ℤ} {a : α}

theorem admits_none (n : ℤ) : DigitLimit.none.admits n = true := rfl

theorem admits_most_iff {k : ℕ} {h : leastLimit ≤ k} {n : ℤ} : (most k h).admits n = true ↔ n.natAbs < 10 ^ k := by
  have hk : 640 ≤ k := h
  rw [← length_natural_le_iff (by omega), admits, excess?]
  split
  · next h => simpa using h
  · next h => simpa using h

theorem admits_of_lt {n : ℤ} (h : n.natAbs < 10 ^ leastLimit) : limit.admits n = true := by
  cases limit with
  | none => rfl
  | most k hk =>
    rw [admits_most_iff]
    exact h.trans_le (Nat.pow_le_pow_right (by decide) hk)

theorem admits_of_natAbs_le {m n : ℤ} (h : m.natAbs ≤ n.natAbs) (hn : limit.admits n = true) :
    limit.admits m = true := by
  cases limit with
  | none => rfl
  | most k hk =>
    rw [admits_most_iff] at hn ⊢
    exact h.trans_lt hn

theorem check_map_eq_ok_iff {f : Unit → α} :
    (limit.check numbers).map f = .ok a ↔ (∀ n ∈ numbers, limit.admits n = true) ∧ f () = a := by
  have hcheck : limit.check numbers = .ok () ↔ ∀ n ∈ numbers, limit.admits n = true := by
    simp only [admits, Option.isNone_iff_eq_none, ← List.findSome?_eq_none_iff]
    rw [check]
    cases numbers.findSome? limit.excess? <;> simp
  rw [map_eq_ok, ← hcheck]
  constructor
  · rintro ⟨⟨⟩, h, ha⟩
    exact ⟨h, ha⟩
  · rintro ⟨h, ha⟩
    exact ⟨(), h, ha⟩

end DigitLimit

end ColorCensus.Text
