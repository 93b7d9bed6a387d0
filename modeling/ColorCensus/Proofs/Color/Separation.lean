import ColorCensus.Proofs.Color.Candidate
import Mathlib.Data.List.Find

namespace ColorCensus

open Text CodePoint

variable {c : CodePoint} {s t word : Text} {previous : Option CodePoint} {words : List Text}

namespace Candidate

def IsClosed (s : Text) : Prop := ∀ u v, s = u ++ char '(' :: v → char ')' ∈ v

theorem IsClosed.of_append (h : IsClosed (s ++ t)) : IsClosed t := fun u v hv =>
  h (s ++ u) v (by rw [hv, List.append_assoc])

theorem isClosed_concat (s : Text) : IsClosed (s ++ [char ')']) := by
  intro u v h
  rcases List.eq_nil_or_concat v with rfl | ⟨v, d, rfl⟩
  · exact absurd (List.append_inj_right' h rfl) (by decide)
  · rw [List.concat_eq_append] at h ⊢
    rw [← List.cons_append, ← List.append_assoc] at h
    rw [← List.append_inj_right' h rfl]
    exact List.mem_append_right v (List.mem_singleton_self _)

theorem isClosed_of_not_mem (h : char '(' ∉ s) : IsClosed s := by
  rintro u v rfl
  exact absurd (List.mem_append_right u List.mem_cons_self) h

theorem IsClosed.filter (h : IsClosed s) (p : CodePoint → Bool) (hp : p (char ')') = true) :
    IsClosed (s.filter p) := by
  intro u v hs
  obtain ⟨a, b, rfl, -, hb⟩ := List.filter_eq_append_iff.mp hs
  obtain ⟨l, r, rfl, -, -, hr⟩ := List.filter_eq_cons_iff.mp hb
  have hm := h (a ++ l) r (by rw [List.append_assoc])
  exact hr ▸ List.mem_filter.mpr ⟨hm, hp⟩

theorem argumentsLength_append_of_mem (h : char ')' ∈ s) : argumentsLength (s ++ t) = argumentsLength s := by
  obtain ⟨u, v, rfl, hu⟩ := List.eq_append_cons_of_mem h
  have hne : ∀ c ∈ u, c ≠ char ')' := fun c hc h => hu (h ▸ hc)
  rw [List.append_assoc, List.cons_append, argumentsLength, argumentsLength, findIdx?_closing hne,
    findIdx?_closing hne]

theorem functionLength_separated (hc : c ∈ separators) (hs : IsClosed s) :
    functionLength (s ++ c :: t) = functionLength s := by
  have hheads : ∀ head ∈ functionHeads, startsWith head (s ++ c :: t) = startsWith head s := by
    intro head hh
    refine startsWith_append_cons ?_
    exact (show ∀ c ∈ separators, ∀ head ∈ functionHeads, c ∉ head from by decide) c hc head hh
  rw [functionLength, functionLength, List.find?_congr hheads]
  cases hf : functionHeads.find? (startsWith · s) with
  | none => rfl
  | some head =>
    have hstart : startsWith head s = true := List.find?_some (p := (startsWith · s)) hf
    obtain ⟨r, rfl⟩ := startsWith_iff.mp hstart
    obtain ⟨name, rfl⟩ : ∃ name, head = name ++ [char '('] :=
      ⟨_, (show ∀ head ∈ functionHeads, head = head.dropLast ++ [char '('] from by decide) head
        (List.mem_of_find?_eq_some hf)⟩
    have hr : char ')' ∈ r := hs name r (List.append_assoc ..)
    dsimp only
    rw [List.append_assoc (name ++ _), List.drop_left, List.drop_left, argumentsLength_append_of_mem hr]

theorem hashLength_separated (hc : c ∈ separators) : hashLength (s ++ c :: t) = hashLength s := by
  cases s with
  | nil =>
    obtain ⟨-, -, -, -, hne, -⟩ := classes_of_mem_separators c hc
    exact hashLength_of_head? (by simpa using hne)
  | cons d s =>
    by_cases hd : d = char '#'
    · obtain ⟨-, hhex, -⟩ := classes_of_mem_separators c hc
      rw [hd, List.cons_append, hashLength_cons, hashLength_cons, takeWhile_append_cons hhex]
    · rw [hashLength_of_head? (by simpa using hd), hashLength_of_head? (by simpa using hd)]

theorem wordLength_separated (hc : c ∈ separators) : wordLength previous (s ++ c :: t) = wordLength previous s := by
  obtain ⟨u, v, rfl, hu, hv⟩ := exists_run isAlpha s
  obtain ⟨halpha, -, -, hend, -⟩ := classes_of_mem_separators c hc
  have hvc : ∀ d ∈ (v ++ c :: t).head?, isAlpha d = false := by
    cases v with
    | nil => simpa using halpha
    | cons d v => exact hv
  have hedge : (v ++ c :: t).head?.all isWordEnd = v.head?.all isWordEnd := by
    cases v with
    | nil => exact hend
    | cons d v => rfl
  rw [List.append_assoc, wordLength_append hu hvc, wordLength_append hu hv, hedge]

theorem length_separated (hc : c ∈ separators) (hs : IsClosed s) :
    length previous (s ++ c :: t) = length previous s := by
  rw [length_eq, length_eq, functionLength_separated hc hs, hashLength_separated hc, wordLength_separated hc]

theorem length_some (hc : isWord c = false) : length (some c) s = length none s := by
  rw [length_eq, length_eq, wordLength, wordLength]
  simp [hc]

theorem candidatesFrom_some (hc : isWord c = false) : candidatesFrom (some c) s = candidatesFrom none s := by
  by_cases h : length none s = 0
  · cases s with
    | nil => rw [candidatesFrom_nil, candidatesFrom_nil]
    | cons d s => rw [candidatesFrom_skip h, candidatesFrom_skip ((length_some hc).trans h)]
  · obtain ⟨word, t, rfl, hw, hl⟩ := exists_spelling h
    rw [candidatesFrom_append hw.ne_nil hl, candidatesFrom_append hw.ne_nil ((length_some hc).trans hl)]

theorem candidatesFrom_separated (hc : c ∈ separators) (hs : IsClosed s) :
    candidatesFrom previous (s ++ c :: t) = candidatesFrom previous s ++ candidatesFrom none t := by
  induction previous, s using scan_induction with
  | nil previous =>
    obtain ⟨-, -, hword, -⟩ := classes_of_mem_separators c hc
    rw [List.nil_append, candidatesFrom_skip (length_separator hc previous t), candidatesFrom_nil,
      candidatesFrom_some hword]
    rfl
  | skip previous d s hl ih =>
    have hskip : length previous (d :: (s ++ c :: t)) = 0 := (length_separated hc hs).trans hl
    rw [List.cons_append, candidatesFrom_skip hskip, candidatesFrom_skip hl]
    exact ih (hs.of_append (s := [d]))
  | candidate previous word s hw hl ih =>
    have htake : length previous (word ++ (s ++ c :: t)) = word.length := by
      rw [← List.append_assoc, length_separated hc hs, hl]
    rw [List.append_assoc, candidatesFrom_append hw.ne_nil htake, candidatesFrom_append hw.ne_nil hl,
      ih hs.of_append]
    rfl

theorem tokens_separated (hc : c ∈ separators) (hs : IsClosed s) :
    tokens (s ++ c :: t) = tokens s ++ tokens t := by
  obtain ⟨-, -, -, -, -, hne⟩ := classes_of_mem_separators c hc
  rw [tokens_eq, tokens_eq, tokens_eq, List.filter_append, List.filter_cons_of_pos (by simpa using hne)]
  exact candidatesFrom_separated hc (hs.filter _ (by decide))

theorem mem_of_mem_candidatesFrom (h : word ∈ candidatesFrom previous s) (hc : c ∈ word) : c ∈ s := by
  induction previous, s using scan_induction with
  | nil previous =>
    rw [candidatesFrom_nil] at h
    cases h
  | skip previous d s hl ih => exact List.mem_cons_of_mem d (ih (candidatesFrom_skip hl ▸ h))
  | candidate previous first s hw hl ih =>
    rw [candidatesFrom_append hw.ne_nil hl] at h
    rcases List.mem_cons.mp h with rfl | h
    · exact List.mem_append_left s hc
    · exact List.mem_append_right first (ih h)

theorem not_mem_of_isHex (h : ∀ c ∈ s, isHex c = true) : char '(' ∉ s := fun hm => absurd (h _ hm) (by decide)

theorem not_mem_of_isAlpha (h : ∀ c ∈ s, isAlpha c = true) : char '(' ∉ s := fun hm => absurd (h _ hm) (by decide)

theorem IsSpelling.isClosed (h : IsSpelling word) : IsClosed word := by
  cases h with
  | call head arguments => exact isClosed_concat _
  | hash digits h => exact isClosed_of_not_mem (List.not_mem_cons_of_ne_of_not_mem (by decide) (not_mem_of_isHex h))
  | word letters h => exact isClosed_of_not_mem (not_mem_of_isAlpha h)

theorem IsSpelling.length_eq (h : IsSpelling word) : length none word = word.length := by
  rw [Candidate.length_eq]
  cases h with
  | call head arguments hh h h0 =>
    rw [functionLength_append hh h h0, if_pos (by simp)]
  | hash digits h h0 hn =>
    have hf : functionLength (char '#' :: digits) = 0 :=
      functionLength_of_not_mem (List.not_mem_cons_of_ne_of_not_mem (by decide) (not_mem_of_isHex h))
    rw [hf, hashLength_cons, List.takeWhile_eq_self_iff.mpr h, hn,
      if_neg (List.length_pos_iff.mpr h0).ne']
    rfl
  | word letters h h0 =>
    have hhash : hashLength word = 0 := by
      refine hashLength_of_head? fun c hc => ?_
      rintro rfl
      exact absurd (h _ (List.mem_of_mem_head? hc)) (by decide)
    have hw : wordLength none (word ++ []) = _ := wordLength_append h (by simp)
    rw [List.append_nil] at hw
    rw [functionLength_of_not_mem (not_mem_of_isAlpha h), hhash, hw]
    rfl

theorem IsSpelling.candidatesFrom_eq (h : IsSpelling word) : candidatesFrom none word = [word] := by
  have hall : candidatesFrom none (word ++ []) = word :: candidatesFrom word.getLast? [] :=
    candidatesFrom_append h.ne_nil (by rw [List.append_nil, h.length_eq])
  rwa [List.append_nil, candidatesFrom_nil] at hall

theorem tokens_token (h : word ∈ tokens s) : tokens word = [word] := by
  have hw := isSpelling_of_mem_tokens h
  rw [tokens_eq] at h
  have hclean : boundary ∉ word := fun hm => by simpa using mem_of_mem_candidatesFrom h hm
  rw [tokens_of_not_mem hclean, hw.candidatesFrom_eq]

theorem tokens_join_blank (h : ∀ word ∈ words, IsClosed word ∧ tokens word = [word]) :
    tokens (join " " words) = words := by
  induction words with
  | nil =>
    rw [join, List.intercalate_nil, tokens_eq]
    exact candidatesFrom_nil none
  | cons word words ih =>
    obtain ⟨⟨hclosed, hword⟩, hwords⟩ := List.forall_mem_cons.mp h
    cases words with
    | nil => rw [join, List.intercalate_singleton, hword]
    | cons next words =>
      have hcons : join " " (word :: next :: words) = word ++ char ' ' :: join " " (next :: words) := by
        simp [join, ofString]
      rw [hcons, tokens_separated (by decide) hclosed, hword, ih hwords]
      rfl

end Candidate

end ColorCensus
