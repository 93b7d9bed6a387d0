import ColorCensus.Proofs.Color.Written
import ColorCensus.Tally

namespace ColorCensus.Tally

open Text

variable {t : Tally} {c d : Text} {n : ℕ} {counts : List (Text × ℕ)} {colors : List Text}

structure IsLawful (t : Tally) : Prop where
  distinct : (t.counts.map Prod.fst).Nodup
  positive : ∀ e ∈ t.counts, 0 < e.2

theorem isLawful_empty : IsLawful .empty := ⟨List.nodup_nil, by simp [empty]⟩

theorem map_fst_bump (c : Text) (counts : List (Text × ℕ)) : (bump c counts).map Prod.fst =
    if c ∈ counts.map Prod.fst then counts.map Prod.fst else counts.map Prod.fst ++ [c] := by
  induction counts with
  | nil => rfl
  | cons e counts ih =>
    obtain ⟨d, n⟩ := e
    by_cases hd : d = c
    · simp [bump, hd]
    · rw [bump, if_neg hd, List.map_cons, ih, List.map_cons]
      by_cases hm : c ∈ counts.map Prod.fst
      · rw [if_pos hm, if_pos (List.mem_cons_of_mem d hm)]
      · rw [if_neg hm, if_neg (by simpa [Ne.symm hd] using hm), List.cons_append]

theorem map_fst_addAll (t : Tally) (colors : List Text) : (t.addAll colors).counts.map Prod.fst =
    t.counts.map Prod.fst ++ colors.eraseDups.filter (· ∉ t.counts.map Prod.fst) := by
  induction colors using List.reverseRecOn with
  | nil => simp [addAll]
  | append_singleton colors c ih =>
    have hc : (t.addAll (colors ++ [c])).counts = bump c (t.addAll colors).counts := by
      rw [addAll_append]
      rfl
    have hmem : c ∈ (t.addAll colors).counts.map Prod.fst ↔ c ∈ t.counts.map Prod.fst ∨ c ∈ colors := by
      rw [ih, List.mem_append, List.mem_filter, List.mem_eraseDups]
      by_cases ht : c ∈ t.counts.map Prod.fst <;> simp [ht]
    rw [hc, map_fst_bump, List.eraseDups_append, List.filter_append, List.removeAll]
    by_cases ht : c ∈ t.counts.map Prod.fst
    · rw [if_pos (hmem.mpr (.inl ht)), ih]
      by_cases hm : c ∈ colors <;> simp [hm, List.eraseDups_cons, ht]
    · by_cases hm : c ∈ colors
      · rw [if_pos (hmem.mpr (.inr hm)), ih]
        simp [hm]
      · rw [if_neg fun h => (hmem.mp h).elim ht hm, ih, List.append_assoc]
        simp [hm, List.eraseDups_cons, ht]

theorem nodup_bump (h : (counts.map Prod.fst).Nodup) (c : Text) :
    ((bump c counts).map Prod.fst).Nodup := by
  rw [map_fst_bump]
  split
  · exact h
  · next hm =>
    rw [List.nodup_append]
    refine ⟨h, List.nodup_singleton c, ?_⟩
    rintro d hd e he rfl
    rw [List.mem_singleton] at he
    exact hm (he ▸ hd)

theorem positive_bump (h : ∀ e ∈ counts, 0 < e.2) (c : Text) : ∀ e ∈ bump c counts, 0 < e.2 := by
  induction counts with
  | nil => simp [bump]
  | cons e counts ih =>
    obtain ⟨d, n⟩ := e
    intro x hx
    by_cases hd : d = c
    · rw [bump, if_pos hd, List.mem_cons] at hx
      rcases hx with rfl | hx
      · exact Nat.succ_pos n
      · exact h x (List.mem_cons_of_mem _ hx)
    · rw [bump, if_neg hd, List.mem_cons] at hx
      rcases hx with rfl | hx
      · exact h _ List.mem_cons_self
      · exact ih (fun y hy => h y (List.mem_cons_of_mem _ hy)) x hx

theorem IsLawful.add (h : t.IsLawful) (c : Text) : (t.add c).IsLawful :=
  ⟨nodup_bump h.distinct c, positive_bump h.positive c⟩

theorem IsLawful.addAll (h : t.IsLawful) (colors : List Text) : (t.addAll colors).IsLawful := by
  induction colors generalizing t with
  | nil => exact h
  | cons c colors ih => exact ih (h.add c)

theorem get_addAll (t : Tally) (colors : List Text) (c : Text) :
    (t.addAll colors).get c = t.get c + colors.count c := by
  induction colors generalizing t with
  | nil => rfl
  | cons d colors ih =>
    have hd : (t.addAll (d :: colors)).get c = ((t.add d).addAll colors).get c := rfl
    rw [hd, ih, get_add, List.count_cons]
    by_cases h : c = d
    · simp [h]
      omega
    · simp [h, Ne.symm h]

theorem IsLawful.mem_keys_iff (h : t.IsLawful) : c ∈ t.counts.map Prod.fst ↔ 0 < t.get c := by
  rw [get]
  constructor
  · intro hm
    obtain ⟨e, he, rfl⟩ := List.mem_map.mp hm
    have hs : (t.counts.lookup e.1).isSome = true :=
      List.lookup_isSome_iff.mpr ⟨e, he, beq_self_eq_true e.1⟩
    obtain ⟨n, hn⟩ := Option.isSome_iff_exists.mp hs
    obtain ⟨l₁, l₂, hl, -⟩ := List.lookup_eq_some_iff.mp hn
    rw [hn]
    exact h.positive (e.1, n) (hl ▸ List.mem_append_right l₁ List.mem_cons_self)
  · intro hpos
    cases hl : t.counts.lookup c with
    | none =>
      rw [hl] at hpos
      exact absurd hpos (lt_irrefl 0)
    | some n =>
      have hs : (t.counts.lookup c).isSome = true := by rw [hl]; rfl
      obtain ⟨e, he, hk⟩ := List.lookup_isSome_iff.mp hs
      exact List.mem_map.mpr ⟨e, he, (beq_iff_eq.mp hk).symm⟩

theorem canonical?_eq_some {token : Text} :
    Color.canonical? token = some c ↔ Color.normalize token = .ok (some c) := by
  rw [Color.canonical?]
  cases Color.normalize token with
  | error f => simp [Except.toOption]
  | ok c => simp [Except.toOption]

theorem count_colorsOf (value c : Text) : (colorsOf value).count c =
    (Candidate.tokens value).countP fun token => Color.normalize token = .ok (some c) := by
  rw [colorsOf]
  induction Candidate.tokens value with
  | nil => rfl
  | cons token tokens ih =>
    rw [List.filterMap_cons, List.countP_cons, ← ih]
    cases h : Color.canonical? token with
    | none =>
      have hne : Color.normalize token ≠ .ok (some c) := by
        intro hc
        rw [canonical?_eq_some.mpr hc] at h
        cases h
      simp [hne]
    | some d =>
      have hd : Color.normalize token = .ok (some c) ↔ d = c := by
        rw [← canonical?_eq_some, h, Option.some.injEq]
      rw [List.count_cons]
      simp [hd]

theorem mem_colorsOf {value : Text} : c ∈ colorsOf value ↔
    ∃ token ∈ Candidate.tokens value, Color.normalize token = .ok (some c) := by
  rw [colorsOf, List.mem_filterMap]
  simp only [canonical?_eq_some]

theorem normalize_of_mem_colorsOf {value : Text} (h : c ∈ colorsOf value) :
    Color.normalize c = .ok (some c) := by
  obtain ⟨token, -, ht⟩ := mem_colorsOf.mp h
  obtain ⟨color, hc, -, rfl⟩ := Color.exists_of_normalize ht
  exact Color.normalize_text hc

end ColorCensus.Tally
