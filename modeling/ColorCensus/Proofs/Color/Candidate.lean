import ColorCensus.Color.Candidate
import ColorCensus.Proofs.Text.Case
import ColorCensus.Proofs.Text.Split

namespace ColorCensus.Candidate

open Text CodePoint

variable {c : CodePoint} {s t head plain word : Text} {previous : Option CodePoint} {words : List Text}

theorem findIdx?_closing (h : ∀ c ∈ s, c ≠ char ')') :
    (s ++ char ')' :: t).findIdx? (· = char ')') = some s.length := by
  induction s with
  | nil => rfl
  | cons d s ih =>
    obtain ⟨hd, hs⟩ := List.forall_mem_cons.mp h
    rw [List.cons_append, List.findIdx?_cons, if_neg (by simpa using hd), ih hs]
    rfl

theorem argumentsLength_append (h : ∀ c ∈ s, c ≠ char ')') (h0 : s ≠ []) :
    argumentsLength (s ++ char ')' :: t) = s.length + 1 := by
  rw [argumentsLength, findIdx?_closing h]
  cases s with
  | nil => exact absurd rfl h0
  | cons d s => rfl

theorem argumentsLength_of_head? (h : ∀ c ∈ s.head?, c = char ')') : argumentsLength s = 0 := by
  cases s with
  | nil => rfl
  | cons c s =>
    rw [h c rfl]
    rfl

theorem argumentsLength_of_not_mem (h : ∀ c ∈ s, c ≠ char ')') : argumentsLength s = 0 := by
  have hfind : s.findIdx? (· = char ')') = none := List.findIdx?_eq_none_iff.mpr fun c hc => by simpa using h c hc
  rw [argumentsLength, hfind]

theorem exists_arguments (h : argumentsLength s ≠ 0) :
    ∃ arguments t, s = arguments ++ char ')' :: t ∧ (∀ c ∈ arguments, c ≠ char ')') ∧ arguments ≠ [] := by
  obtain ⟨u, v, rfl, hu, hv⟩ := exists_run (· != char ')') s
  have hu : ∀ c ∈ u, c ≠ char ')' := fun c hc => by simpa using hu c hc
  cases v with
  | nil =>
    rw [List.append_nil] at h
    exact absurd (argumentsLength_of_not_mem hu) h
  | cons c v =>
    obtain rfl : c = char ')' := by simpa using hv c rfl
    refine ⟨u, v, rfl, hu, ?_⟩
    rintro rfl
    exact absurd (argumentsLength_of_head? (s := char ')' :: v) fun c hc => (Option.some.inj hc).symm) h

theorem find?_startsWith (h : head ∈ functionHeads) :
    functionHeads.find? (startsWith · (head ++ s)) = some head := by
  -- no head begins another one, so it does not matter in which order they are tried
  simp only [functionHeads, List.mem_cons, List.not_mem_nil, or_false] at h
  rcases h with rfl | rfl | rfl | rfl <;> rfl

theorem functionLength_append (hh : head ∈ functionHeads) (h : ∀ c ∈ s, c ≠ char ')') (h0 : s ≠ []) :
    functionLength (head ++ s ++ char ')' :: t) = (head ++ s ++ [char ')']).length := by
  rw [functionLength, List.append_assoc, find?_startsWith hh]
  dsimp only
  rw [List.drop_left, argumentsLength_append h h0]
  simp

theorem exists_call (h : functionLength s ≠ 0) : ∃ head ∈ functionHeads, ∃ arguments t,
    s = head ++ arguments ++ char ')' :: t ∧ (∀ c ∈ arguments, c ≠ char ')') ∧ arguments ≠ [] := by
  cases hf : functionHeads.find? (startsWith · s) with
  | none => exact absurd (by rw [functionLength, hf]) h
  | some head =>
    have hs : startsWith head s = true := List.find?_some (p := (startsWith · s)) hf
    obtain ⟨r, rfl⟩ := startsWith_iff.mp hs
    have hr : argumentsLength r ≠ 0 := by
      intro hr
      rw [functionLength, hf] at h
      dsimp only at h
      rw [List.drop_left, hr] at h
      exact h rfl
    obtain ⟨arguments, t, rfl, ha, h0⟩ := exists_arguments hr
    exact ⟨head, List.mem_of_find?_eq_some hf, arguments, t, (List.append_assoc ..).symm, ha, h0⟩

theorem functionLength_of_not_mem (h : char '(' ∉ s) : functionLength s = 0 := by
  by_contra hn
  obtain ⟨head, hh, arguments, t, rfl, -⟩ := exists_call hn
  have hm : char '(' ∈ head := (show ∀ head ∈ functionHeads, char '(' ∈ head from by decide) head hh
  exact h (List.mem_append_left _ (List.mem_append_left _ hm))

theorem digitsTaken_cases (n : ℕ) : digitsTaken n ≤ n ∧ digitsTaken n ∈ [0, 3, 4, 6, 8] := by
  rw [digitsTaken]
  split_ifs <;> simp <;> omega

theorem digitsTaken_digitsTaken (n : ℕ) : digitsTaken (digitsTaken n) = digitsTaken n :=
  (show ∀ k ∈ [0, 3, 4, 6, 8], digitsTaken k = k from by decide) _ (digitsTaken_cases n).2

theorem hashLength_cons (s : Text) : hashLength (char '#' :: s) =
    if digitsTaken (s.takeWhile isHex).length = 0 then 0 else digitsTaken (s.takeWhile isHex).length + 1 := rfl

theorem hashLength_of_head? (h : ∀ c ∈ s.head?, c ≠ char '#') : hashLength s = 0 := by
  unfold hashLength
  split
  · exact absurd rfl (h _ rfl)
  · rfl

theorem exists_hash (h : hashLength s ≠ 0) : ∃ digits t, s = char '#' :: (digits ++ t) ∧
    (∀ c ∈ digits, isHex c = true) ∧ digits ≠ [] ∧ digitsTaken digits.length = digits.length ∧
    hashLength s = digits.length + 1 := by
  obtain ⟨r, rfl⟩ : ∃ r, s = char '#' :: r := by
    unfold hashLength at h
    split at h
    · exact ⟨_, rfl⟩
    · exact absurd rfl h
  obtain ⟨u, v, rfl, hu, hv⟩ := exists_run isHex r
  rw [hashLength_cons, takeWhile_append_of_head? hu hv] at h ⊢
  have h0 : digitsTaken u.length ≠ 0 := fun hz => h (if_pos hz)
  have hlength : (u.take (digitsTaken u.length)).length = digitsTaken u.length :=
    List.length_take_of_le (digitsTaken_cases u.length).1
  refine ⟨u.take (digitsTaken u.length), u.drop (digitsTaken u.length) ++ v, ?_,
    fun c hc => hu c (List.mem_of_mem_take hc), ?_, ?_, ?_⟩
  · rw [← List.append_assoc, List.take_append_drop]
  · rw [← List.length_pos_iff, hlength]
    exact Nat.pos_of_ne_zero h0
  · rw [hlength, digitsTaken_digitsTaken]
  · rw [if_neg h0, hlength]

theorem wordLength_cons (h : isAlpha c = false) : wordLength previous (c :: t) = 0 := by
  rw [wordLength]
  split
  · rfl
  · rw [List.dropWhile_cons_of_neg (by simp [h]), List.takeWhile_cons_of_neg (by simp [h])]
    dsimp only
    split <;> rfl

def isWordEnd (c : CodePoint) : Bool := !isWord c && c != '-'

theorem wordLength_append (hs : ∀ c ∈ s, isAlpha c = true) (ht : ∀ c ∈ t.head?, isAlpha c = false) :
    wordLength previous (s ++ t) =
      if previous.any isWord then 0 else if t.head?.all isWordEnd then s.length else 0 := by
  have hdrop : (s ++ t).dropWhile isAlpha = t := by
    rw [List.dropWhile_append_of_pos hs]
    cases t with
    | nil => rfl
    | cons c t => rw [List.dropWhile_cons_of_neg (by simp [ht c rfl])]
  rw [wordLength, hdrop, takeWhile_append_of_head? hs ht]
  cases t with
  | nil => rfl
  | cons c t => cases hc : isWord c <;> by_cases hm : c = char '-' <;> simp [isWordEnd, hc, hm]

theorem exists_word (h : wordLength previous s ≠ 0) : ∃ letters t, s = letters ++ t ∧
    (∀ c ∈ letters, isAlpha c = true) ∧ letters ≠ [] ∧ wordLength previous s = letters.length := by
  obtain ⟨u, v, rfl, hu, hv⟩ := exists_run isAlpha s
  rw [wordLength_append hu hv] at h ⊢
  split at h
  · exact absurd rfl h
  · next hp =>
    split at h
    · next he => exact ⟨u, v, rfl, hu, List.length_pos_iff.mp (Nat.pos_of_ne_zero h), by rw [if_neg hp, if_pos he]⟩
    · exact absurd rfl h

inductive IsSpelling : Text → Prop where
  | call (head arguments : Text) (hh : head ∈ functionHeads) (h : ∀ c ∈ arguments, c ≠ char ')')
    (h0 : arguments ≠ []) : IsSpelling (head ++ arguments ++ [char ')'])
  | hash (digits : Text) (h : ∀ c ∈ digits, isHex c = true) (h0 : digits ≠ [])
    (hn : digitsTaken digits.length = digits.length) : IsSpelling (char '#' :: digits)
  | word (letters : Text) (h : ∀ c ∈ letters, isAlpha c = true) (h0 : letters ≠ []) : IsSpelling letters

theorem IsSpelling.ne_nil (h : IsSpelling word) : word ≠ [] := by
  cases h with
  | call => simp
  | hash digits => exact List.cons_ne_nil _ _
  | word letters h h0 => exact h0

theorem length_eq : length previous s = if functionLength s ≠ 0 then functionLength s
    else if hashLength s ≠ 0 then hashLength s else wordLength previous s := by
  rw [length]
  cases functionLength s with
  | succ n => rfl
  | zero =>
    cases hashLength s with
    | succ n => rfl
    | zero => rfl

theorem exists_spelling (h : length previous s ≠ 0) :
    ∃ word t, s = word ++ t ∧ IsSpelling word ∧ length previous s = word.length := by
  rw [length_eq] at h ⊢
  split at h
  · next hf =>
    obtain ⟨head, hh, arguments, t, rfl, ha, h0⟩ := exists_call hf
    refine ⟨_, t, (List.append_cons ..), .call head arguments hh ha h0, ?_⟩
    rw [if_pos hf, functionLength_append hh ha h0]
  · next hf =>
    rw [if_neg hf]
    split at h
    · next hd =>
      obtain ⟨digits, t, rfl, hx, h0, hn, hl⟩ := exists_hash hd
      refine ⟨_, t, rfl, .hash digits hx h0 hn, ?_⟩
      rw [if_pos hd, hl, List.length_cons]
    · next hd =>
      obtain ⟨letters, t, rfl, ha, h0, hl⟩ := exists_word h
      refine ⟨letters, t, rfl, .word letters ha h0, ?_⟩
      rw [if_neg hd, hl]

theorem scan_induction {motive : Option CodePoint → Text → Prop} (nil : ∀ previous, motive previous [])
    (skip : ∀ previous c t, length previous (c :: t) = 0 → motive (some c) t → motive previous (c :: t))
    (candidate : ∀ previous word t, IsSpelling word → length previous (word ++ t) = word.length →
      motive word.getLast? t → motive previous (word ++ t)) (previous : Option CodePoint) (s : Text) :
    motive previous s := by
  induction hn : s.length using Nat.strong_induction_on generalizing previous s with
  | h n ih =>
    subst hn
    by_cases hl : length previous s = 0
    · cases s with
      | nil => exact nil previous
      | cons c t => exact skip previous c t hl (ih t.length (Nat.lt_succ_self _) (some c) t rfl)
    · obtain ⟨word, t, rfl, hw, hl⟩ := exists_spelling hl
      refine candidate previous word t hw hl (ih t.length ?_ word.getLast? t rfl)
      have h0 := List.length_pos_iff.mpr hw.ne_nil
      rw [List.length_append]
      omega

def segmentsFrom (previous : Option CodePoint) (plain : Text) (s : Text) : List Text :=
  match s with
  | [] => [plain.reverse]
  | c :: t =>
    if length previous (c :: t) = 0 then segmentsFrom (some c) (c :: plain) t
    else
      plain.reverse :: (c :: t).take (length previous (c :: t)) ::
        segmentsFrom ((c :: t).take (length previous (c :: t))).getLast? []
          ((c :: t).drop (length previous (c :: t)))
termination_by s.length
decreasing_by
  · simp
  · simp only [List.length_drop, List.length_cons]
    omega

theorem segmentsFrom_nil (previous : Option CodePoint) (plain : Text) :
    segmentsFrom previous plain [] = [plain.reverse] := by rw [segmentsFrom]

theorem split_marked (hp : boundary ∉ plain) (hs : boundary ∉ s) :
    split boundary (plain.reverse ++ marked previous s) = segmentsFrom previous plain s := by
  fun_induction segmentsFrom previous plain s with
  | case1 previous plain =>
    rw [marked_nil, List.append_nil, split_eq_singleton (by simpa using hp)]
  | case2 previous plain c t h ih =>
    obtain ⟨hc, ht⟩ := not_or.mp (mt List.mem_cons.mpr hs)
    have hm : marked previous (c :: t) = c :: marked (some c) t := by rw [marked, if_pos h]
    rw [hm, ← ih (by simp [hc, hp]) ht, List.reverse_cons, List.append_assoc]
    rfl
  | case3 previous plain c t h ih =>
    have htake : boundary ∉ (c :: t).take (length previous (c :: t)) := fun hm => hs (List.mem_of_mem_take hm)
    have hdrop : boundary ∉ (c :: t).drop (length previous (c :: t)) := fun hm => hs (List.mem_of_mem_drop hm)
    rw [marked, if_neg h, List.cons_append, split_append (by simpa using hp), split_append htake]
    exact congrArg _ (congrArg _ (ih (by simp) hdrop))

theorem segments_eq (value : Text) : segments value = segmentsFrom none [] (value.filter (· ≠ boundary)) :=
  split_marked List.not_mem_nil (by simp)

theorem segmentsFrom_skip (h : length previous (c :: t) = 0) :
    segmentsFrom previous plain (c :: t) = segmentsFrom (some c) (c :: plain) t := by
  rw [segmentsFrom, if_pos h]

theorem segmentsFrom_append (h0 : word ≠ []) (h : length previous (word ++ t) = word.length) :
    segmentsFrom previous plain (word ++ t) = plain.reverse :: word :: segmentsFrom word.getLast? [] t := by
  obtain ⟨c, s, rfl⟩ := List.exists_cons_of_ne_nil h0
  rw [List.cons_append] at h ⊢
  rw [segmentsFrom, if_neg (by simp [h]), h, ← List.cons_append, List.take_left, List.drop_left]

theorem odds_segmentsFrom (previous : Option CodePoint) (plain plain' s : Text) :
    odds (segmentsFrom previous plain s) = odds (segmentsFrom previous plain' s) := by
  induction previous, s using scan_induction generalizing plain plain' with
  | nil previous =>
    rw [segmentsFrom_nil, segmentsFrom_nil]
    rfl
  | skip previous c t h ih =>
    rw [segmentsFrom_skip h, segmentsFrom_skip h]
    exact ih (c :: plain) (c :: plain')
  | candidate previous word t hw h ih =>
    rw [segmentsFrom_append hw.ne_nil h, segmentsFrom_append hw.ne_nil h]
    rfl

def candidatesFrom (previous : Option CodePoint) (s : Text) : List Text := odds (segmentsFrom previous [] s)

theorem candidatesFrom_nil (previous : Option CodePoint) : candidatesFrom previous [] = [] := by
  rw [candidatesFrom, segmentsFrom_nil]
  rfl

theorem candidatesFrom_skip (h : length previous (c :: t) = 0) :
    candidatesFrom previous (c :: t) = candidatesFrom (some c) t := by
  rw [candidatesFrom, segmentsFrom_skip h]
  exact odds_segmentsFrom (some c) [c] [] t

theorem candidatesFrom_append (h0 : word ≠ []) (h : length previous (word ++ t) = word.length) :
    candidatesFrom previous (word ++ t) = word :: candidatesFrom word.getLast? t := by
  rw [candidatesFrom, segmentsFrom_append h0 h]
  rfl

theorem tokens_eq (value : Text) : tokens value = candidatesFrom none (value.filter (· ≠ boundary)) := by
  rw [tokens, segments_eq]
  rfl

theorem tokens_of_not_mem (h : boundary ∉ s) : tokens s = candidatesFrom none s := by
  have hclean : s.filter (· ≠ boundary) = s :=
    List.filter_eq_self.mpr fun c hc => decide_eq_true fun hb => h (hb ▸ hc)
  rw [tokens_eq, hclean]

theorem isSpelling_of_mem_candidatesFrom (h : word ∈ candidatesFrom previous s) : IsSpelling word := by
  induction previous, s using scan_induction with
  | nil previous =>
    rw [candidatesFrom_nil] at h
    cases h
  | skip previous c t hl ih => exact ih (candidatesFrom_skip hl ▸ h)
  | candidate previous head t hw hl ih =>
    rw [candidatesFrom_append hw.ne_nil hl] at h
    rcases List.mem_cons.mp h with rfl | h
    · exact hw
    · exact ih h

theorem isSpelling_of_mem_tokens (h : word ∈ tokens s) : IsSpelling word := by
  rw [tokens_eq] at h
  exact isSpelling_of_mem_candidatesFrom h

def IsCandidate (word : Text) : Prop :=
  word ≠ [] ∧ ∀ previous t, length previous (word ++ t) = word.length

theorem isCandidate_function (hh : head ∈ functionHeads) (h : ∀ c ∈ s, c ≠ char ')') (h0 : s ≠ []) :
    IsCandidate (head ++ s ++ [char ')']) := by
  refine ⟨by simp, fun previous t => ?_⟩
  rw [List.append_assoc, List.singleton_append, length, functionLength_append hh h h0]
  simp

theorem length_cons (hf : functionLength (c :: t) = 0) (hh : hashLength (c :: t) = 0) (hc : isAlpha c = false) :
    length previous (c :: t) = 0 := by
  rw [length, hf, hh]
  exact wordLength_cons hc

def separators : Text := ", ./)"

theorem classes_of_mem_separators : ∀ c ∈ separators, isAlpha c = false ∧ isHex c = false ∧ isWord c = false ∧
    isWordEnd c = true ∧ c ≠ char '#' ∧ c ≠ boundary := by
  decide

theorem length_separator (h : c ∈ separators) (previous : Option CodePoint) (t : Text) :
    length previous (c :: t) = 0 := by
  have hf : functionLength (c :: t) = 0 ∧ hashLength (c :: t) = 0 := by
    have h : c ∈ [char ',', char ' ', char '.', char '/', char ')'] := h
    simp only [List.mem_cons, List.not_mem_nil, or_false] at h
    rcases h with rfl | rfl | rfl | rfl | rfl <;> exact ⟨rfl, rfl⟩
  exact length_cons hf.1 hf.2 (classes_of_mem_separators c h).1

theorem candidatesFrom_join (h : ∀ word ∈ words, IsCandidate word) :
    candidatesFrom previous (join ", " words) = words := by
  induction words generalizing previous with
  | nil =>
    rw [join, List.intercalate_nil]
    exact candidatesFrom_nil previous
  | cons word words ih =>
    obtain ⟨⟨h0, hword⟩, hwords⟩ := List.forall_mem_cons.mp h
    cases words with
    | nil =>
      have hs : candidatesFrom previous (word ++ []) = _ := candidatesFrom_append h0 (hword previous [])
      rw [List.append_nil, candidatesFrom_nil] at hs
      rw [join, List.intercalate_singleton, hs]
    | cons next words =>
      have hcons : join ", " (word :: next :: words) =
          word ++ char ',' :: char ' ' :: join ", " (next :: words) := by
        simp [join, ofString]
      rw [hcons, candidatesFrom_append h0 (hword previous _), candidatesFrom_skip (length_separator (by decide) _ _),
        candidatesFrom_skip (length_separator (by decide) _ _), ih hwords]

theorem tokens_join (h : ∀ word ∈ words, IsCandidate word)
    (hz : ∀ c ∈ join ", " words, c ≠ boundary) : tokens (join ", " words) = words := by
  rw [tokens_of_not_mem fun hm => hz _ hm rfl, candidatesFrom_join h]

end ColorCensus.Candidate
