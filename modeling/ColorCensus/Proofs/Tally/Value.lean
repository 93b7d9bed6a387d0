import ColorCensus.Proofs.Color.Component
import ColorCensus.Proofs.Tally.History

namespace ColorCensus.Tally

open Text CodePoint Candidate

variable {c : CodePoint} {s t u word : Text}

theorem colorsOf_separated (hc : c ∈ separators) (hs : IsClosed s) :
    colorsOf (s ++ c :: t) = colorsOf s ++ colorsOf t := by
  rw [colorsOf, tokens_separated hc hs, List.filterMap_append]
  rfl

theorem step_addValue (t : Tally) (value : Text) :
    t.step (.addValue value) = (t.addAll (colorsOf value), .number (colorsOf value).length) := by
  rw [step, addTokens_tokens, Nat.zero_add]
  rfl

theorem addValue_separated :
    (∀ v w c, IsClosed v → c = char ' ' ∨ c = char ',' →
      tokens (v ++ c :: w) = tokens v ++ tokens w ∧
      ∀ t : Tally, ∃ m n, (t.step (.addValue v)).2 = .number m ∧
        ((t.step (.addValue v)).1.step (.addValue w)).2 = .number n ∧
        t.step (.addValue (v ++ c :: w)) = (((t.step (.addValue v)).1.step (.addValue w)).1, .number (m + n))) ∧
    ∀ u, tokens (join " " (tokens u)) = tokens u := by
  constructor
  · intro v w c hv hc
    have hc : c ∈ separators := by rcases hc with rfl | rfl <;> decide
    refine ⟨tokens_separated hc hv, fun t => ⟨(colorsOf v).length, (colorsOf w).length, ?_, ?_, ?_⟩⟩
    · rw [step_addValue]
    · rw [step_addValue]
    · rw [step_addValue, step_addValue, step_addValue, colorsOf_separated hc hv, addAll_append, List.length_append]
  · exact fun u => tokens_join_blank fun word hword => ⟨(isSpelling_of_mem_tokens hword).isClosed, tokens_token hword⟩

theorem addValue_separated_call :
    tokens ("rgb(1, 2, 3" ++ [char ')'] ++ char ',' :: "red") = tokens ("rgb(1, 2, 3" ++ [char ')']) ++ tokens "red" :=
  (addValue_separated.1 ("rgb(1, 2, 3" ++ [char ')']) "red" ',' (isClosed_concat "rgb(1, 2, 3") (.inr rfl)).1

def IsHashName (s : Text) : Prop := s ≠ [] ∧ IsName s ∧ char '-' ∉ s

def IsKeyword (s : Text) : Prop :=
  (∀ c ∈ s, c ∈ smallLetters ++ [char '-']) ∧ (∃ c ∈ smallLetters, s.head? = some c) ∧
    ∃ c ∈ smallLetters, s.getLast? = some c

instance : Decidable (IsKeyword s) := inferInstanceAs (Decidable (_ ∧ _ ∧ _))

inductive IsComponent : Text → Prop where
  | hash (s : Text) (h : IsHashName s) : IsComponent (char '#' :: s)
  | keyword (s : Text) (h : IsKeyword s) : IsComponent s
  | url (s : Text) (h : IsAddress s) : IsComponent (url s)

theorem IsKeyword.isName (h : IsKeyword s) : IsName s := fun c hc =>
  (show ∀ c ∈ smallLetters ++ [char '-'], c ∈ nameChars from by decide) c (h.1 c hc)

theorem isLetters_of_not_mem (h : ∀ c ∈ s, c ∈ smallLetters ++ [char '-']) (h0 : s ≠ []) (hs : char '-' ∉ s) :
    isLetters s = true := by
  refine isLetters_iff.mpr ⟨h0, fun c hc => ?_⟩
  refine (show ∀ c ∈ smallLetters ++ [char '-'], c ≠ char '-' → isAlpha c = true from by decide) c (h c hc) ?_
  rintro rfl
  exact hs hc

theorem isLetters_afterHyphen (h : ∀ c ∈ s, c ∈ smallLetters ++ [char '-'])
    (hl : ∃ c ∈ smallLetters, s.getLast? = some c) : isLetters (afterHyphen s) = true := by
  induction s using split_induction (char '-') with
  | single s hs =>
    rw [afterHyphen_of_not_mem hs]
    refine isLetters_of_not_mem h ?_ hs
    rintro rfl
    obtain ⟨c, -, hc⟩ := hl
    cases hc
  | cut s t hs ih =>
    rw [afterHyphen_append hs]
    rw [List.getLast?_append_of_ne_nil _ (List.cons_ne_nil _ _)] at hl
    refine ih (List.forall_mem_cons.mp (List.forall_mem_append.mp h).2).2 ?_
    cases t with
    | nil =>
      obtain ⟨c, hc, hm⟩ := hl
      rw [← Option.some.inj hm] at hc
      exact absurd hc (by decide)
    | cons d t => rwa [List.getLast?_cons_cons] at hl

def counted (t : Tally) (words : List Text) : Tally × Answer :=
  (t.addAll (words.filterMap Color.canonical?), .number (words.filterMap Color.canonical?).length)

theorem step_eq_counted (t : Tally) {value : Text} {words : List Text} (hz : boundary ∉ value)
    (h : candidatesFrom none value = words) : t.step (.addValue value) = t.counted words := by
  rw [step_addValue, colorsOf, tokens_of_not_mem hz, h]
  rfl

theorem not_mem_of_isName (h : IsName s) : boundary ∉ s := fun hm => (classes_of_mem_nameChars _ (h _ hm)).2.2.1 rfl

theorem step_hash (h : IsHashName s) (t : Tally) : t.step (.addValue (char '#' :: s)) = t.counted (hashWords s) := by
  obtain ⟨-, hs, hm⟩ := h
  have hz : boundary ∉ char '#' :: s := List.not_mem_cons_of_ne_of_not_mem (by decide) (not_mem_of_isName hs)
  exact step_eq_counted t hz (candidatesFrom_hash hs hm)

theorem step_keyword (h : IsKeyword s) (t : Tally) : t.step (.addValue s) = t.counted [afterHyphen s] := by
  refine step_eq_counted t (not_mem_of_isName h.isName) ?_
  rw [candidatesFrom_name h.isName, List.filter_cons_of_pos (isLetters_afterHyphen h.1 h.2.2)]
  rfl

theorem step_url (h : IsAddress s) (t : Tally) : t.step (.addValue (url s)) = t.counted (addressWords s) := by
  have hz : boundary ∉ url s := by
    have hs : boundary ∉ s := fun hm =>
      absurd (h _ hm) (show boundary ∉ nameChars ++ [char '.', char '/'] from by decide)
    rw [url, List.mem_append, List.mem_append]
    rintro ((hm | hm) | hm)
    · exact absurd hm (by decide)
    · exact hs hm
    · exact absurd hm (by decide)
  rw [step_eq_counted t hz (candidatesFrom_url h)]
  rfl

theorem counted_singleton {color : Option Text} (h : Color.normalize word = .ok color) (t : Tally) :
    t.counted [word] = (t.addAll color.toList, .number color.toList.length) := by
  have hword : [word].filterMap Color.canonical? = color.toList := by
    rw [List.filterMap_cons, Color.canonical?_of_normalize h]
    cases color <;> rfl
  rw [counted, hword]

theorem step_of_normalize (h : IsComponent s) (hc : Color.normalize s = .ok (some u)) (t : Tally) :
    t.step (.addValue s) = t.counted [s] := by
  cases h with
  | hash s h =>
    have hn : digitsAhead s = s.length := Color.digitsAhead_of_normalize h.2.1 h.1 hc
    have hwords : hashWords s = [char '#' :: s] := by
      rw [hashWords, hn, if_neg (List.length_pos_iff.mpr h.1).ne', List.take_length]
    rw [step_hash h, hwords]
  | keyword s h =>
    have hm : char '-' ∉ s := by
      intro hm
      rw [Color.normalize_of_hyphen h.isName hm] at hc
      cases hc
    rw [step_keyword h, afterHyphen_of_not_mem hm]
  | url s h =>
    rw [url, List.append_assoc, Color.normalize_url] at hc
    cases hc

theorem addValue_component :
    (∀ v color, IsComponent v → Color.normalize v = .ok (some color) →
      ∀ t : Tally, t.step (.addValue v) = (t.add color, .number 1)) ∧
    (∀ s, IsHashName s → (digitsAhead s ≠ s.length → Color.normalize (char '#' :: s) = .ok none) ∧
      (digitsAhead s ≠ 0 → ∃ color, Color.normalize (char '#' :: s.take (digitsAhead s)) = .ok (some color)) ∧
      ∀ t : Tally, t.step (.addValue (char '#' :: s)) = t.counted (hashWords s)) ∧
    (∀ s, IsKeyword s → (char '-' ∈ s → Color.normalize s = .ok none) ∧
      ∀ t : Tally, t.step (.addValue s) = t.counted [afterHyphen s]) ∧
    ∀ s, IsAddress s → Color.normalize (url s) = .ok none ∧
      ∀ t : Tally, t.step (.addValue (url s)) = t.counted (addressWords s) := by
  refine ⟨fun v color h hc t => ?_, fun s h => ⟨?_, ?_, step_hash h⟩, fun s h => ⟨?_, step_keyword h⟩,
    fun s h => ⟨?_, step_url h⟩⟩
  · rw [step_of_normalize h hc, counted_singleton hc]
    rfl
  · exact Color.normalize_of_digitsAhead h.2.1 h.1
  · exact Color.exists_normalize_take h.2.1
  · exact Color.normalize_of_hyphen h.isName
  · rw [url, List.append_assoc]
    exact Color.normalize_url (s ++ [char ')'])

theorem addValue_component_url : empty.step (.addValue (url "img/old-logo.red.svg")) =
    (⟨[("rgb(255, 0, 0)", 1)]⟩, .number 1) :=
  ((addValue_component.2.2.2 "img/old-logo.red.svg" (by decide)).2 empty).trans (by decide +kernel)

theorem addValue_ne_normalize : IsComponent "dark-red" ∧ Color.normalize "dark-red" = .ok none ∧
    empty.step (.addValue "dark-red") = (⟨[("rgb(255, 0, 0)", 1)]⟩, .number 1) := by
  have h : IsKeyword "dark-red" := by decide
  exact ⟨.keyword _ h, Color.normalize_of_hyphen h.isName (by decide), (step_keyword h empty).trans (by decide +kernel)⟩

end ColorCensus.Tally
