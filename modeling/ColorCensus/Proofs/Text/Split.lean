import ColorCensus.Text.Split
import Mathlib.Data.List.Basic
import Mathlib.Data.List.TakeWhile

namespace ColorCensus.Text

section

variable {α : Type} {q : α → Prop} {a b : α} {s sep : List α} {parts : List (List α)}

theorem exists_intercalate_cons : ∃ t, sep.intercalate ((a :: s) :: parts) = a :: t := by
  cases parts with
  | nil => exact ⟨s, List.intercalate_singleton⟩
  | cons next parts => exact ⟨_, List.intercalate_cons_cons⟩

theorem forall_mem_intercalate (hs : ∀ x ∈ sep, q x) (hp : ∀ part ∈ parts, ∀ x ∈ part, q x) :
    ∀ x ∈ sep.intercalate parts, q x := by
  induction parts with
  | nil => simp
  | cons part parts ih =>
    obtain ⟨hpart, hparts⟩ := List.forall_mem_cons.mp hp
    cases parts with
    | nil => rwa [List.intercalate_singleton]
    | cons next parts =>
      rw [List.intercalate_cons_cons, List.append_assoc]
      exact List.forall_mem_append.mpr ⟨hpart, List.forall_mem_append.mpr ⟨hs, ih hparts⟩⟩

theorem intercalate_ends (h0 : parts ≠ []) (h : ∀ part ∈ parts, ∃ s, part = a :: s ++ [b]) :
    ∃ s, sep.intercalate parts = a :: s ++ [b] := by
  induction parts with
  | nil => exact absurd rfl h0
  | cons part parts ih =>
    obtain ⟨⟨s, rfl⟩, hparts⟩ := List.forall_mem_cons.mp h
    cases parts with
    | nil => exact ⟨s, List.intercalate_singleton⟩
    | cons next parts =>
      obtain ⟨t, ht⟩ := ih (List.cons_ne_nil next parts) hparts
      exact ⟨s ++ [b] ++ sep ++ a :: t, by simp [List.intercalate_cons_cons, ht]⟩

end

variable {c separator : CodePoint} {p : CodePoint → Bool} {s t u : Text} {parts : List Text}

theorem takeWhile_append_of_head? (hs : ∀ c ∈ s, p c = true) (ht : ∀ c ∈ t.head?, p c = false) :
    (s ++ t).takeWhile p = s := by
  rw [List.takeWhile_append_of_pos hs]
  cases t with
  | nil => rw [List.takeWhile_nil, List.append_nil]
  | cons c t => rw [List.takeWhile_cons_of_neg (by simp [ht c rfl]), List.append_nil]

theorem dropWhile_append_of_head? (hs : ∀ c ∈ s, p c = true) (ht : ∀ c ∈ t.head?, p c = false) :
    (s ++ t).dropWhile p = t := by
  rw [List.dropWhile_append_of_pos hs]
  cases t with
  | nil => rfl
  | cons c t => exact List.dropWhile_cons_of_neg (by simp [ht c rfl])

theorem head?_dropWhile (h : c ∈ (s.dropWhile p).head?) : p c = false := by
  have hs := List.head?_dropWhile_not p s
  rwa [h] at hs

theorem exists_run (p : CodePoint → Bool) (s : Text) : ∃ u v, s = u ++ v ∧ (∀ c ∈ u, p c = true) ∧
    ∀ c ∈ v.head?, p c = false :=
  ⟨s.takeWhile p, s.dropWhile p, List.takeWhile_append_dropWhile.symm, fun _ hc => List.mem_takeWhile_imp hc,
    fun _ hc => head?_dropWhile hc⟩

theorem takeWhile_append_cons (h : p c = false) :
    (s ++ c :: t).takeWhile p = s.takeWhile p := by
  obtain ⟨u, v, rfl, hu, hv⟩ := exists_run p s
  have hvc : ∀ d ∈ (v ++ c :: t).head?, p d = false := by
    cases v with
    | nil => simpa using h
    | cons d v => exact hv
  rw [List.append_assoc, takeWhile_append_of_head? hu hvc, takeWhile_append_of_head? hu hv]

theorem startsWith_append_cons (h : c ∉ u) : startsWith u (s ++ c :: t) = startsWith u s := by
  induction u generalizing s with
  | nil => rfl
  | cons d u ih =>
    obtain ⟨hd, hu⟩ := not_or.mp (mt List.mem_cons.mpr h)
    cases s with
    | nil => exact Bool.and_eq_false_imp.mpr fun hc => absurd (beq_iff_eq.mp hc).symm hd
    | cons e s => exact congrArg (d == e && ·) (ih hu)

theorem split_induction (separator : CodePoint) {motive : Text → Prop} (single : ∀ s, separator ∉ s → motive s)
    (cut : ∀ s t, separator ∉ s → motive t → motive (s ++ separator :: t)) (s : Text) : motive s := by
  induction hn : s.length using Nat.strong_induction_on generalizing s with
  | h n ih =>
    obtain ⟨u, v, rfl, hu, hv⟩ := exists_run (· != separator) s
    have hu : separator ∉ u := fun h => by simpa using hu separator h
    cases v with
    | nil =>
      rw [List.append_nil]
      exact single u hu
    | cons c v =>
      obtain rfl : c = separator := by simpa using hv c rfl
      refine cut u v hu (ih v.length ?_ v rfl)
      rw [← hn, List.length_append, List.length_cons]
      omega

theorem mem_of_mem_split {part : Text} (h : part ∈ split separator s) (hc : c ∈ part) : c ∈ s := by
  induction s using split_induction separator with
  | single s hs =>
    rw [split_eq_singleton hs, List.mem_singleton] at h
    exact h ▸ hc
  | cut s t hs ih =>
    rw [split_append hs] at h
    rcases List.mem_cons.mp h with rfl | h
    · exact List.mem_append_left _ hc
    · exact List.mem_append_right s (List.mem_cons_of_mem separator (ih h))

theorem split_append_cons (s t : Text) :
    split separator (s ++ separator :: t) = split separator s ++ split separator t := by
  induction s with
  | nil => exact if_pos rfl
  | cons c s ih =>
    rw [List.cons_append, split, split, ih]
    split
    · rfl
    · cases hs : split separator s with
      | nil => exact absurd hs (split_ne_nil separator s)
      | cons part parts => rfl

theorem append_separator_inj {v : Text} (hs : separator ∉ s) (ht : separator ∉ t) :
    s ++ separator :: u = t ++ separator :: v ↔ s = t ∧ u = v := by
  refine ⟨fun h => ?_, fun ⟨hst, huv⟩ => hst ▸ huv ▸ rfl⟩
  have hsplit := congrArg (split separator) h
  rw [split_append hs, split_append ht] at hsplit
  obtain rfl := (List.cons.inj hsplit).1
  exact ⟨rfl, (List.cons.inj (List.append_cancel_left h)).2⟩

theorem split_join (h : ∀ part ∈ parts, separator ∉ part) (h0 : parts ≠ []) :
    split separator (join [separator] parts) = parts := by
  induction parts with
  | nil => exact absurd rfl h0
  | cons part parts ih =>
    obtain ⟨hpart, hparts⟩ := List.forall_mem_cons.mp h
    cases parts with
    | nil => rw [join, List.intercalate_singleton, split_eq_singleton hpart]
    | cons next parts =>
      have hj : join [separator] (part :: next :: parts) =
          part ++ separator :: join [separator] (next :: parts) := by
        rw [join, List.intercalate_cons_cons, List.append_assoc]
        rfl
      rw [hj, split_append hpart, ih hparts (List.cons_ne_nil next parts)]

end ColorCensus.Text
