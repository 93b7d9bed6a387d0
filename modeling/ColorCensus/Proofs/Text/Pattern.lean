import ColorCensus.Proofs.Text.Split
import ColorCensus.Text.Word

namespace ColorCensus

open Text

inductive Pattern where
  | nothing
  | one (p : CodePoint → Bool)
  | run (p : CodePoint → Bool)
  | both (first second : Pattern)
  | either (first second : Pattern)
  | edge
  | notBefore (c : CodePoint)

namespace Pattern

variable {p q r : Pattern} {f : CodePoint → Bool} {before s t u : Text} {n : ℕ}

def literal : Text → Pattern
  | [] => nothing
  | c :: t => both (one (· == c)) (literal t)

def times (f : CodePoint → Bool) : ℕ → Pattern
  | 0 => nothing
  | n + 1 => both (one f) (times f n)

def ways (before s : Text) : Pattern → List ℕ
  | nothing => [0]
  | one f => if s.head?.any f then [1] else []
  | run f => (List.range' 1 (s.takeWhile f).length).reverse
  | both p q => (p.ways before s).flatMap fun n =>
      (q.ways ((s.take n).reverse ++ before) (s.drop n)).map (n + ·)
  | either p q => p.ways before s ++ q.ways before s
  | edge => if before.head?.any isWord = s.head?.any isWord then [] else [0]
  | notBefore c => if s.head? = some c then [] else [0]

theorem ways_both_of_eq_nil (h : p.ways before s = []) : (both p q).ways before s = [] := by
  rw [ways, h, List.flatMap_nil]

theorem ways_both_of_singleton (h : p.ways before s = [n]) : (both p q).ways before s =
    (q.ways ((s.take n).reverse ++ before) (s.drop n)).map (n + ·) := by
  rw [ways, h, List.flatMap_singleton]

theorem ways_both_either : (both (either p q) r).ways before s =
    (both p r).ways before s ++ (both q r).ways before s := List.flatMap_append ..

theorem ways_literal (t : Text) : (literal t).ways before s = if startsWith t s then [t.length] else [] := by
  induction t generalizing before s with
  | nil => rfl
  | cons c t ih =>
    cases s with
    | nil => rfl
    | cons d s =>
      by_cases hd : d = c
      · have hone : (one (· == c)).ways before (d :: s) = [1] := by simp [ways, hd]
        rw [literal, ways_both_of_singleton hone, List.drop_one, List.tail_cons, ih, startsWith, startsWith,
          List.isPrefixOf_cons_cons, hd, beq_self_eq_true, Bool.true_and]
        split
        · rw [List.map_singleton, List.length_cons, Nat.add_comm]
        · rfl
      · have hone : (one (· == c)).ways before (d :: s) = [] := by simp [ways, hd]
        rw [literal, ways_both_of_eq_nil hone, startsWith, List.isPrefixOf_cons_cons,
          beq_eq_false_iff_ne.mpr (Ne.symm hd)]
        rfl

theorem ways_both_literal_append (t : Text) (q : Pattern) : (both (literal t) q).ways before (t ++ s) =
    (q.ways (t.reverse ++ before) s).map (t.length + ·) := by
  have ht : (literal t).ways before (t ++ s) = [t.length] := by
    rw [ways_literal, if_pos (startsWith_iff.mpr ⟨s, rfl⟩)]
  rw [ways_both_of_singleton ht, List.take_left, List.drop_left]

theorem ways_both_literal_eq_nil (h : startsWith t s = false) : (both (literal t) q).ways before s = [] :=
  ways_both_of_eq_nil (by rw [ways_literal, if_neg (by simp [h])])

theorem ways_literal_either (t : Text) : (both (literal t) (either p q)).ways before s =
    (both (literal t) p).ways before s ++ (both (literal t) q).ways before s := by
  cases ht : startsWith t s with
  | true =>
    obtain ⟨r, rfl⟩ := startsWith_iff.mp ht
    rw [ways_both_literal_append, ways_both_literal_append, ways_both_literal_append, ways, List.map_append]
  | false =>
    rw [ways_both_literal_eq_nil ht, ways_both_literal_eq_nil ht, ways_both_literal_eq_nil ht]
    rfl

theorem startsWith_append_iff : startsWith (t ++ u) s = true ↔ ∃ r, s = t ++ r ∧ startsWith u r = true := by
  simp only [startsWith_iff]
  constructor
  · rintro ⟨r, rfl⟩
    exact ⟨u ++ r, List.append_assoc .., r, rfl⟩
  · rintro ⟨-, rfl, r, rfl⟩
    exact ⟨r, (List.append_assoc ..).symm⟩

theorem ways_literal_literal (t u : Text) (q : Pattern) :
    (both (literal t) (both (literal u) q)).ways before s = (both (literal (t ++ u)) q).ways before s := by
  cases htu : startsWith (t ++ u) s with
  | true =>
    obtain ⟨r, rfl, hr⟩ := startsWith_append_iff.mp htu
    obtain ⟨v, rfl⟩ := startsWith_iff.mp hr
    rw [ways_both_literal_append, ways_both_literal_append, ← List.append_assoc t u v,
      ways_both_literal_append, List.map_map, List.reverse_append, List.append_assoc]
    refine List.map_congr_left fun n _ => ?_
    rw [List.length_append, Nat.add_assoc]
    rfl
  | false =>
    rw [ways_both_literal_eq_nil htu]
    cases ht : startsWith t s with
    | true =>
      obtain ⟨r, rfl⟩ := startsWith_iff.mp ht
      have hu : startsWith u r = false := by
        rw [← Bool.not_eq_true]
        exact fun h => Bool.false_ne_true (htu.symm.trans (startsWith_append_iff.mpr ⟨r, rfl, h⟩))
      rw [ways_both_literal_append, ways_both_literal_eq_nil hu]
      rfl
    | false => exact ways_both_literal_eq_nil ht

theorem ways_times (f : CodePoint → Bool) (n : ℕ) :
    (times f n).ways before s = if n ≤ (s.takeWhile f).length then [n] else [] := by
  induction n generalizing before s with
  | zero => rfl
  | succ n ih =>
    cases s with
    | nil => rfl
    | cons c s =>
      by_cases hc : f c = true
      · have hone : (one f).ways before (c :: s) = [1] := by simp [ways, hc]
        rw [times, ways_both_of_singleton hone, List.drop_one, List.tail_cons, ih, List.takeWhile_cons_of_pos hc,
          List.length_cons]
        simp only [Nat.add_le_add_iff_right]
        split
        · rw [List.map_singleton, Nat.add_comm]
        · rfl
      · have hone : (one f).ways before (c :: s) = [] := by simp [ways, hc]
        rw [times, ways_both_of_eq_nil hone, List.takeWhile_cons_of_neg hc]
        rfl

theorem ways_both_run (h : ∀ b before c s, f b = true → f c = true → q.ways (b :: before) (c :: s) = [])
    (hs : ∀ c ∈ s, f c = true) (h0 : s ≠ []) (ht : ∀ c ∈ t.head?, f c = false) :
    (both (run f) q).ways before (s ++ t) = (q.ways (s.reverse ++ before) t).map (s.length + ·) := by
  have htake : (s ++ t).takeWhile f = s := takeWhile_append_of_head? hs ht
  obtain ⟨m, hm⟩ := Nat.exists_eq_succ_of_ne_zero (List.length_pos_iff.mpr h0).ne'
  have hrun : (run f).ways before (s ++ t) = s.length :: (List.range' 1 m).reverse := by
    rw [ways, htake, hm, List.range'_concat]
    simp [Nat.add_comm]
  have hshort : ((List.range' 1 m).reverse.flatMap fun n =>
      (q.ways (((s ++ t).take n).reverse ++ before) ((s ++ t).drop n)).map (n + ·)) = [] := by
    refine List.flatMap_eq_nil_iff.mpr fun n hn => ?_
    obtain ⟨h1, hn⟩ := List.mem_range'_1.mp (List.mem_reverse.mp hn)
    -- a shorter run leaves a character of the class on both sides
    obtain ⟨b, u, hu⟩ := List.exists_cons_of_ne_nil (l := (s.take n).reverse) (by simp [h0]; omega)
    obtain ⟨c, v, hv⟩ := List.exists_cons_of_ne_nil (l := s.drop n) (by simp; omega)
    have hb : b ∈ s := List.mem_of_mem_take (List.mem_reverse.mp (hu ▸ List.mem_cons_self))
    have hc : c ∈ s := List.mem_of_mem_drop (hv ▸ List.mem_cons_self)
    rw [List.take_append_of_le_length (by omega), List.drop_append_of_le_length (by omega), hu, hv,
      List.cons_append, List.cons_append, h b _ c _ (hs b hb) (hs c hc), List.map_nil]
  rw [ways, hrun, List.flatMap_cons, hshort, List.append_nil, List.take_left, List.drop_left]

end Pattern

end ColorCensus
