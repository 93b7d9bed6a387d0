import ColorCensus.Proofs.Census
import ColorCensus.Proofs.FileSystem.Order
import ColorCensus.Proofs.Tally.History
import Mathlib.Data.List.Sort

namespace ColorCensus

open Text

theorem filter_mergeSort {α : Type} {le : α → α → Bool} {p : α → Bool}
    (trans : ∀ a b c, le a b → le b c → le a c) (total : ∀ a b, le a b || le b a)
    (hp : ∀ a b, p a → p b → le a b) (xs : List α) : (xs.mergeSort le).filter p = xs.filter p := by
  have hsub : (xs.filter p).Sublist (xs.mergeSort le) := by
    refine List.sublist_mergeSort trans total ?_ List.filter_sublist
    exact List.pairwise_of_forall_mem_list fun a ha b hb =>
      hp a b (List.mem_filter.mp ha).2 (List.mem_filter.mp hb).2
  have hfilter := hsub.filter p
  rw [List.filter_filter] at hfilter
  simp only [Bool.and_self] at hfilter
  exact (hfilter.eq_of_length ((List.mergeSort_perm xs le).symm.filter p).length_eq).symm

namespace Report

variable {r : Report} {counts rows rows' : List (Text × ℤ)} {a b : Text}

theorem descending_trans (x y z : Text × ℤ) (hxy : decide (y.2 ≤ x.2) = true)
    (hyz : decide (z.2 ≤ y.2) = true) : decide (z.2 ≤ x.2) = true :=
  decide_eq_true (le_trans (of_decide_eq_true hyz) (of_decide_eq_true hxy))

theorem descending_total (x y : Text × ℤ) : (decide (y.2 ≤ x.2) || decide (x.2 ≤ y.2)) = true := by
  rw [Bool.or_eq_true, decide_eq_true_iff, decide_eq_true_iff]
  exact le_total y.2 x.2

structure IsRanking (counts rows : List (Text × ℤ)) : Prop where
  perm : rows.Perm counts
  descending : rows.Pairwise fun x y => y.2 ≤ x.2
  ties : ∀ n, rows.filter (·.2 = n) = counts.filter (·.2 = n)

theorem pairwise_rows (r : Report) : r.rows.Pairwise fun x y => y.2 ≤ x.2 :=
  (List.pairwise_mergeSort descending_trans descending_total r.counts).imp of_decide_eq_true

theorem isRanking_rows (r : Report) : IsRanking r.counts r.rows where
  perm := r.rows_perm
  descending := r.pairwise_rows
  ties := by
    intro n
    refine filter_mergeSort descending_trans descending_total (fun x y hx hy => ?_) r.counts
    rw [of_decide_eq_true hx, of_decide_eq_true hy]
    exact decide_eq_true le_rfl

theorem head_eq_of_descending {x y : Text × ℤ} {xs ys : List (Text × ℤ)}
    (hx : (x :: xs).Pairwise fun x y => y.2 ≤ x.2) (hy : (y :: ys).Pairwise fun x y => y.2 ≤ x.2)
    (h : ∀ n, (x :: xs).filter (·.2 = n) = (y :: ys).filter (·.2 = n)) : x = y := by
  have hmem : ∀ {z : Text × ℤ}, z ∈ x :: xs ↔ z ∈ y :: ys := by
    intro z
    have hz := congrArg (z ∈ ·) (h z.2)
    simpa using hz
  have hle : x.2 = y.2 := by
    apply le_antisymm
    · rcases List.mem_cons.mp (hmem.mp List.mem_cons_self) with rfl | hm
      · exact le_rfl
      · exact List.rel_of_pairwise_cons hy hm
    · rcases List.mem_cons.mp (hmem.mpr List.mem_cons_self) with rfl | hm
      · exact le_rfl
      · exact List.rel_of_pairwise_cons hx hm
  have hfirst := h x.2
  rw [List.filter_cons_of_pos (by simp), List.filter_cons_of_pos (by simp [hle])] at hfirst
  exact (List.cons.inj hfirst).1

theorem eq_of_descending (hrows : rows.Pairwise fun x y => y.2 ≤ x.2)
    (hrows' : rows'.Pairwise fun x y => y.2 ≤ x.2)
    (h : ∀ n, rows.filter (·.2 = n) = rows'.filter (·.2 = n)) : rows = rows' := by
  induction rows generalizing rows' with
  | nil =>
    cases rows' with
    | nil => rfl
    | cons y ys => simpa using h y.2
  | cons x xs ih =>
    cases rows' with
    | nil => simpa using h x.2
    | cons y ys =>
      obtain rfl := head_eq_of_descending hrows hrows' h
      congr 1
      refine ih hrows.of_cons hrows'.of_cons fun n => ?_
      have hn := h n
      rw [List.filter_cons, List.filter_cons] at hn
      split at hn
      · exact (List.cons.inj hn).2
      · exact hn

theorem isRanking_iff : IsRanking r.counts rows ↔ rows = r.rows := by
  constructor
  · intro h
    exact eq_of_descending h.descending r.pairwise_rows fun n =>
      (h.ties n).trans (r.isRanking_rows.ties n).symm
  · rintro rfl
    exact r.isRanking_rows

theorem rows_eq_reverse (r : Report) :
    r.rows = (r.counts.reverse.mergeSort fun x y => decide (x.2 ≤ y.2)).reverse := by
  have trans : ∀ x y z : Text × ℤ, decide (x.2 ≤ y.2) = true → decide (y.2 ≤ z.2) = true →
      decide (x.2 ≤ z.2) = true := fun x y z hxy hyz => descending_trans z y x hyz hxy
  have total : ∀ x y : Text × ℤ, (decide (x.2 ≤ y.2) || decide (y.2 ≤ x.2)) = true :=
    fun x y => descending_total y x
  refine (isRanking_iff.mp ⟨?_, ?_, fun n => ?_⟩).symm
  · exact (List.reverse_perm _).trans ((List.mergeSort_perm _ _).trans (List.reverse_perm _))
  · rw [List.pairwise_reverse]
    exact (List.pairwise_mergeSort trans total _).imp of_decide_eq_true
  · have hn : ∀ x y : Text × ℤ, decide (x.2 = n) = true → decide (y.2 = n) = true →
        decide (x.2 ≤ y.2) = true := by
      intro x y hx hy
      rw [of_decide_eq_true hx, of_decide_eq_true hy]
      exact decide_eq_true le_rfl
    rw [List.filter_reverse, filter_mergeSort trans total hn, List.filter_reverse, List.reverse_reverse]

theorem sublist_rows {x y : Text × ℤ} (h : [x, y].Sublist r.counts) (hn : x.2 = y.2) : [x, y].Sublist r.rows :=
  List.pair_sublist_mergeSort descending_trans descending_total (decide_eq_true hn.ge) h

theorem counts_ofTally_eq (k : ℤ) {t : Tally} (h : t.IsLawful) :
    (ofTally k t).counts = (t.counts.map Prod.fst).map fun c => (c, (ofTally k t).count c) := by
  rw [List.map_map, ofTally]
  refine List.map_congr_left fun e he => ?_
  rw [Function.comp_apply, ← ofTally, count_ofTally, Tally.get,
    (lookup_eq_some_iff_mem h.distinct).mpr he, Option.getD_some]

end Report

namespace Tally

variable {ops more : List Operation} {a b : Text}

def IsFirstBefore (ops : List Operation) (a b : Text) : Prop :=
  [a, b].Sublist (ops.flatMap Operation.added).eraseDups

theorem IsFirstBefore.append (h : IsFirstBefore ops a b) (more : List Operation) :
    IsFirstBefore (ops ++ more) a b := by
  rw [IsFirstBefore, List.flatMap_append, List.eraseDups_append]
  exact h.trans (List.sublist_append_left _ _)

theorem IsFirstBefore.sublist_counts (h : IsFirstBefore ops a b) (k : ℤ) :
    [(a, (Report.ofTally k (empty.run ops).1).count a), (b, (Report.ofTally k (empty.run ops).1).count b)].Sublist
      (Report.ofTally k (empty.run ops).1).counts := by
  have hkept := run_empty_isKept ops
  rw [Report.counts_ofTally_eq k ⟨hkept.distinct, hkept.positive⟩, hkept.order]
  exact h.map fun c => (c, (Report.ofTally k (empty.run ops).1).count c)

end Tally

theorem Report.rows_ranked :
    (∀ (r : Report) rows, IsRanking r.counts rows ↔ rows = r.rows) ∧
    ∀ (k : ℤ) (ops more : List Tally.Operation) (a b : Text), Tally.IsFirstBefore ops a b →
      let r := ofTally k (Tally.empty.run (ops ++ more)).1
      r.count a = r.count b → [(a, r.count a), (b, r.count b)].Sublist r.rows := by
  refine ⟨fun r rows => isRanking_iff, ?_⟩
  intro k ops more a b h r hn
  exact sublist_rows ((h.append more).sublist_counts k) hn

theorem Report.rows_ranked_tied :
    let before : List Tally.Operation := [.add "red", .add "blue"]
    let after : List Tally.Operation := [.add "blue", .addToken "nothing", .add "red"]
    let r := ofTally 1 (Tally.empty.run (before ++ after)).1
    Tally.IsFirstBefore before "red" "blue" ∧ r.count "red" = r.count "blue" ∧
      [(ofString "red", r.count "red"), (ofString "blue", r.count "blue")].Sublist r.rows := by
  intro before after r
  have hfirst : Tally.IsFirstBefore before "red" "blue" := by
    unfold Tally.IsFirstBefore
    decide
  have hn : r.count "red" = r.count "blue" := by decide +kernel
  exact ⟨hfirst, hn, rows_ranked.2 1 before after "red" "blue" hfirst hn⟩

end ColorCensus
