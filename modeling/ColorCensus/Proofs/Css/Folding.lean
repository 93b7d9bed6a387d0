import ColorCensus.Proofs.Css.Composition
import ColorCensus.Proofs.Text.Case

namespace ColorCensus.Css

open Text Decimal CodePoint Read

variable {α β γ δ : Type} {c d : CodePoint} {s t text text' : Text} {p : CodePoint → Bool}

structure Read.Folds (f : α → β) (r r' : Read α) : Prop where
  value : f r'.value = f r.value
  width : r'.width = r.width
  rest : r'.rest = asciiLower r.rest

namespace Read.Folds

variable {f : α → β} {g : γ → δ} {r r' u u' : Read α}

theorem widen (h : Folds f r r') {n n' : ℕ} (hn : n' = n) : Folds f (r.widen n) (r'.widen n') :=
  ⟨h.value, congrArg₂ (· + ·) h.width hn, h.rest⟩

theorem map {k k' : α → γ} (h : Folds f r r') (hk : ∀ x y, f y = f x → g (k' y) = g (k x)) :
    Folds g (r.map k) (r'.map k') :=
  ⟨hk _ _ h.value, h.width, h.rest⟩

theorem const {a a' : α} (h : f a' = f a) (n : ℕ) (s : Text) : Folds f ⟨a, n, s⟩ ⟨a', n, asciiLower s⟩ :=
  ⟨h, rfl, rfl⟩

theorem ite {q q' : Prop} [Decidable q] [Decidable q'] (hq : q' ↔ q) (ht : q → Folds f r r')
    (he : ¬ q → Folds f u u') : Folds f (if q then r else u) (if q' then r' else u') := by
  by_cases h : q
  · rw [if_pos h, if_pos (hq.mpr h)]
    exact ht h
  · rw [if_neg h, if_neg fun h' => h (hq.mp h')]
    exact he h

end Read.Folds

theorem isCaseless_isSpace : IsCaseless isSpace := isCaseless (by decide)

theorem isCaseless_isNameStart : IsCaseless isNameStart := isCaseless (by decide)

theorem isCaseless_isNameChar : IsCaseless isNameChar := isCaseless (by decide)

theorem isCaseFree_of_isNameStart_eq_false (h : isNameStart c = false) : IsCaseFree c := by
  rw [isNameStart, Bool.or_eq_false_iff, Bool.or_eq_false_iff] at h
  have hl : ∀ d ∈ capitals ++ block 97 26, d.isAlpha = true := by decide
  constructor
  · intro hc
    exact absurd ((hl c (List.mem_append_left _ hc)).symm.trans h.1.1) (by decide)
  · intro hc
    exact absurd ((hl c (List.mem_append_right _ hc)).symm.trans h.1.1) (by decide)

theorem run_folds (hp : IsCaseless p) (limit : ℕ) (s : Text) :
    Folds asciiLower (run limit p s) (run limit p (asciiLower s)) := by
  rw [run, run, takeRun_asciiLower hp]
  exact ⟨asciiLower_asciiLower _, List.length_map _, rfl⟩

theorem runAll_folds (hp : IsCaseless p) (s : Text) :
    Folds asciiLower (runAll p s) (runAll p (asciiLower s)) := by
  rw [runAll, runAll, takeWhile_asciiLower hp, dropWhile_asciiLower hp]
  exact ⟨asciiLower_asciiLower _, List.length_map _, rfl⟩

theorem startsLine_iff : startsLine s = true ↔ s.head? = some (char '\n') := by
  unfold startsLine
  split
  · simp
  · next h =>
    cases s with
    | nil => simp
    | cons c s =>
      simp only [Bool.false_eq_true, List.head?_cons, Option.some.injEq, false_iff]
      rintro rfl
      exact h s rfl

theorem startsLine_asciiLower (s : Text) : startsLine (asciiLower s) = startsLine s := by
  rw [Bool.eq_iff_iff, startsLine_iff, startsLine_iff, head?_asciiLower (by decide)]

theorem startsEscape_cons : startsEscape (c :: s) = (c == char '\\' && !startsLine s) := by
  unfold startsEscape
  split
  · next h =>
    obtain ⟨rfl, rfl⟩ := List.cons.inj h
    rfl
  · next h =>
    have hc : c ≠ char '\\' := by
      rintro rfl
      exact h s rfl
    simp [hc]

theorem startsEscape_asciiLower (s : Text) : startsEscape (asciiLower s) = startsEscape s := by
  cases s with
  | nil => rfl
  | cons c s =>
    rw [asciiLower_cons, startsEscape_cons, startsEscape_cons, startsLine_asciiLower,
      beq_toLower (by decide)]

theorem startsIdentifier_asciiLower (s : Text) :
    startsIdentifier (asciiLower s) = startsIdentifier s := by
  cases s with
  | nil => rfl
  | cons c s =>
    have he := startsEscape_asciiLower (c :: s)
    rw [asciiLower_cons] at he ⊢
    by_cases hc : c = '-'
    · subst hc
      have hd : IsCaseless fun c => isNameStart c || c == '-' := isCaseless (by decide)
      have hl : (char '-').toLower = char '-' := by decide
      rw [hl, startsIdentifier_minus, startsIdentifier_minus, startsEscape_asciiLower,
        any_head?_asciiLower hd]
    · have hc' : c.toLower ≠ '-' := fun h => hc ((toLower_eq_iff (by decide)).mp h)
      rw [startsIdentifier_cons hc, startsIdentifier_cons hc', he, isCaseless_isNameStart c]

theorem readEscape_folds (s : Text) : Folds toLower (readEscape s) (readEscape (asciiLower s)) := by
  cases s with
  | nil => exact ⟨rfl, rfl, rfl⟩
  | cons c s =>
    have hd := run_folds isCaseless_isHex 6 (c :: s)
    have hs := run_folds isCaseless_isSpace 1 (run 6 isHex (c :: s)).rest
    rw [asciiLower_cons] at hd ⊢
    rw [readEscape, readEscape, isCaseless_isHex c]
    rw [← hd.rest] at hs
    refine Folds.ite Iff.rfl (fun _ => ⟨?_, ?_, hs.rest⟩) fun _ => .const (toLower_toLower c) 1 s
    · exact congrArg (fun n => (escapedPoint n).toLower) (ofHex_congr hd.value)
    · exact congrArg₂ (· + ·) hd.width hs.width

theorem readName_folds (s : Text) : Folds asciiLower (readName s) (readName (asciiLower s)) := by
  fun_induction readName s with
  | case1 =>
    rw [asciiLower, List.map_nil, readName]
    exact .const rfl 0 []
  | case2 c s hc ih =>
    rw [asciiLower_cons, readName, if_pos ((isCaseless_isNameChar c).trans hc)]
    exact (ih.widen rfl).map fun _ _ => asciiLower_cons_congr c.toLower_toLower
  | case3 c s hc he _ ih =>
    have hr := readEscape_folds s
    have he' : c.toLower = '\\' ∧ startsLine (asciiLower s) = false :=
      ⟨(toLower_eq_iff (by decide)).mpr he.1, (startsLine_asciiLower s).trans he.2⟩
    rw [← hr.rest] at ih
    rw [asciiLower_cons, readName, if_neg (by simp [isCaseless_isNameChar c, hc]), if_pos he']
    exact (ih.widen (congrArg (1 + ·) hr.width)).map fun _ _ => asciiLower_cons_congr hr.value
  | case4 c s hc he =>
    have he' : ¬ (c.toLower = '\\' ∧ startsLine (asciiLower s) = false) := by
      rw [toLower_eq_iff (by decide), startsLine_asciiLower]
      exact he
    rw [asciiLower_cons, readName, if_neg (by simp [isCaseless_isNameChar c, hc]), if_neg he']
    exact ⟨rfl, rfl, rfl⟩

theorem skipComment_folds (s : Text) : Folds id (skipComment s) (skipComment (asciiLower s)) := by
  fun_induction skipComment s with
  | case1 s => exact .const rfl 2 s
  | case2 c s hs ih =>
    have hc : ¬ (c.toLower = char '*' ∧ (asciiLower s).head? = some (char '/')) := by
      rw [head_pair_asciiLower (by decide) (by decide)]
      exact not_head_pair hs
    rw [asciiLower_cons, skipComment_cons hc]
    exact ih.widen rfl
  | case3 => exact ⟨rfl, rfl, rfl⟩

def StringValue.fold (v : StringValue) : StringValue := { v with text := asciiLower v.text }

theorem StringValue.fold_cons {v w : StringValue} (hc : d.toLower = c.toLower) (h : w.fold = v.fold) :
    (w.cons d).fold = (v.cons c).fold := by
  obtain ⟨ht, he⟩ := StringValue.mk.inj h
  exact congrArg₂ StringValue.mk (asciiLower_cons_congr hc ht) he

theorem readString_quote {quote : CodePoint} :
    readString quote (quote :: s) = ⟨⟨[], .closed⟩, 1, s⟩ := by
  rw [readString.eq_def]
  exact if_pos rfl

theorem readString_line {quote : CodePoint} (h : char '\\' ≠ quote) :
    readString quote (char '\\' :: char '\n' :: s) = (readString quote s).widen 2 := by
  rw [readString.eq_def]
  exact if_neg h

theorem readString_escape {quote : CodePoint} (h : char '\\' ≠ quote) (hd : d ≠ '\n') :
    readString quote (char '\\' :: d :: s) =
      ((readString quote (readEscape (d :: s)).rest).widen (1 + (readEscape (d :: s)).width)).map
        (.cons (readEscape (d :: s)).value) := by
  rw [readString.eq_def]
  dsimp only
  rw [if_neg h, if_pos rfl, if_neg hd]

theorem readString_cons {quote : CodePoint} (h : c ≠ quote) (hb : c ≠ '\\') (hn : c ≠ '\n') :
    readString quote (c :: s) = ((readString quote s).widen 1).map (.cons c) := by
  rw [readString.eq_def]
  dsimp only
  rw [if_neg h, if_neg hb, if_neg hn]

theorem readString_folds {quote : CodePoint} (hq : IsCaseFree quote) (s : Text) :
    Folds StringValue.fold (readString quote s) (readString quote (asciiLower s)) := by
  have hc (c : CodePoint) : c.toLower = quote ↔ c = quote := toLower_eq_iff hq
  have hb (c : CodePoint) : c.toLower = '\\' ↔ c = '\\' := toLower_eq_iff (by decide)
  have hn (c : CodePoint) : c.toLower = '\n' ↔ c = '\n' := toLower_eq_iff (by decide)
  fun_induction readString quote s with
  | case1 =>
    rw [asciiLower, List.map_nil, readString]
    exact .const rfl 0 []
  | case2 s =>
    rw [asciiLower_cons, (hc quote).mpr rfl, readString_quote]
    exact .const rfl 1 s
  | case3 h =>
    have he : readString quote [char '\\'] = ⟨⟨[], .unfinished⟩, 1, []⟩ := by
      rw [readString.eq_def]
      exact if_neg h
    rw [asciiLower_cons, (hb _).mpr rfl, asciiLower, List.map_nil, he]
    exact .const rfl 1 []
  | case4 t h ih =>
    rw [asciiLower_cons, asciiLower_cons, (hb _).mpr rfl, (hn _).mpr rfl, readString_line h]
    exact ih.widen rfl
  | case5 d t hd _ _ h ih =>
    have hr := readEscape_folds (d :: t)
    rw [← hr.rest] at ih
    rw [asciiLower_cons] at ih hr ⊢
    rw [asciiLower_cons, (hb _).mpr rfl, readString_escape h (mt (hn d).mp hd)]
    exact (ih.widen (congrArg (1 + ·) hr.width)).map fun _ _ => StringValue.fold_cons hr.value
  | case6 s h _ =>
    have he : readString quote (char '\n' :: asciiLower s) = ⟨⟨[], .broken⟩, 0, char '\n' :: asciiLower s⟩ := by
      rw [readString.eq_def]
      exact if_neg h
    rw [asciiLower_cons, (hn _).mpr rfl, he]
    exact ⟨rfl, rfl, rfl⟩
  | case7 c s h hb' hn' ih =>
    rw [asciiLower_cons, readString_cons (mt (hc c).mp h) (mt (hb c).mp hb') (mt (hn c).mp hn')]
    exact (ih.widen rfl).map fun _ _ => StringValue.fold_cons c.toLower_toLower

def UrlValue.fold (v : UrlValue) : UrlValue := { v with text := v.text.map asciiLower }

theorem UrlValue.fold_cons {v w : UrlValue} (hc : d.toLower = c.toLower) (h : w.fold = v.fold) :
    (w.cons d).fold = (v.cons c).fold := by
  obtain ⟨v, vc⟩ := v
  obtain ⟨w, wc⟩ := w
  obtain ⟨ht, he⟩ := UrlValue.mk.inj h
  refine congrArg₂ UrlValue.mk ?_ he
  cases v with
  | none => cases w with
    | none => rfl
    | some w => cases ht
  | some v => cases w with
    | none => cases ht
    | some w => exact congrArg some (asciiLower_cons_congr hc (Option.some.inj ht))

theorem skipUrl_folds (s : Text) : Folds id (skipUrl s) (skipUrl (asciiLower s)) := by
  fun_induction skipUrl s with
  | case1 s ih => exact ih.widen rfl
  | case2 s => exact .const rfl 1 s
  | case3 c s hs hc ih =>
    have hb : ¬ (c.toLower = '\\' ∧ (asciiLower s).head? = some (char ')')) := by
      rw [head_pair_asciiLower (by decide) (by decide)]
      exact not_head_pair hs
    rw [asciiLower_cons, skipUrl_cons hb, if_neg fun h => hc ((toLower_eq_iff (by decide)).mp h)]
    exact ih.widen rfl
  | case4 => exact ⟨rfl, rfl, rfl⟩

theorem closeUrl_folds (s : Text) : Folds UrlValue.fold (closeUrl s) (closeUrl (asciiLower s)) := by
  cases s with
  | nil => exact ⟨rfl, rfl, rfl⟩
  | cons c s =>
    have hs := skipUrl_folds (c :: s)
    exact Folds.ite (toLower_eq_iff (by decide)) (fun _ => .const rfl 1 s) fun _ => hs.map fun _ _ _ => rfl

theorem pastSpace_folds {f : α → β} {read : Text → Read α} (h : ∀ s, Folds f (read s) (read (asciiLower s)))
    (s : Text) : Folds f (pastSpace read s) (pastSpace read (asciiLower s)) := by
  rw [pastSpace, pastSpace, dropWhile_asciiLower isCaseless_isSpace, takeWhile_asciiLower isCaseless_isSpace]
  exact (h _).widen (List.length_map _)

theorem readUrlFrom_folds (s : Text) :
    Folds UrlValue.fold (readUrlFrom s) (readUrlFrom (asciiLower s)) := by
  have hu : IsCaseless endsUrl := isCaseless (by decide)
  have hp (c : CodePoint) : c.toLower = ')' ↔ c = ')' := toLower_eq_iff (by decide)
  have hb (c : CodePoint) (s : Text) :
      c.toLower = '\\' ∧ startsLine (asciiLower s) = false ↔ c = '\\' ∧ startsLine s = false := by
    rw [toLower_eq_iff (by decide), startsLine_asciiLower]
  fun_induction readUrlFrom s with
  | case1 =>
    rw [asciiLower, List.map_nil, readUrlFrom]
    exact .const rfl 0 []
  | case2 s =>
    rw [asciiLower_cons, readUrlFrom, if_pos ((hp _).mpr rfl)]
    exact .const rfl 1 s
  | case3 c s hc hs =>
    rw [asciiLower_cons, readUrlFrom, if_neg (mt (hp c).mp hc), if_pos ((isCaseless_isSpace c).trans hs)]
    exact (pastSpace_folds closeUrl_folds s).widen rfl
  | case4 c s hc hs he _ _ ih =>
    have hr := readEscape_folds s
    rw [← hr.rest] at ih
    rw [asciiLower_cons, readUrlFrom, if_neg (mt (hp c).mp hc), if_neg (by simp [isCaseless_isSpace c, hs]),
      if_pos ((hb c s).mpr he)]
    exact (ih.widen (congrArg (1 + ·) hr.width)).map fun _ _ => UrlValue.fold_cons hr.value
  | case5 c s hc hs he hv =>
    rw [asciiLower_cons, readUrlFrom, if_neg (mt (hp c).mp hc), if_neg (by simp [isCaseless_isSpace c, hs]),
      if_neg (mt (hb c s).mp he), if_pos ((hu c).trans hv)]
    exact ((skipUrl_folds s).widen rfl).map fun _ _ _ => rfl
  | case6 c s hc hs he hv ih =>
    rw [asciiLower_cons, readUrlFrom, if_neg (mt (hp c).mp hc), if_neg (by simp [isCaseless_isSpace c, hs]),
      if_neg (mt (hb c s).mp he), if_neg (by simp [hu c, hv])]
    exact (ih.widen rfl).map fun _ _ => UrlValue.fold_cons c.toLower_toLower

theorem quoteAhead_asciiLower (s : Text) : quoteAhead (asciiLower s) = quoteAhead s := by
  have hq : IsCaseless fun c => c == '"' || c == '\'' := isCaseless (by decide)
  rw [quoteAhead, quoteAhead, dropWhile_asciiLower isCaseless_isSpace]
  cases s.dropWhile isSpace with
  | nil => rfl
  | cons c s => exact hq c

theorem digitsLength_asciiLower (s : Text) : digitsLength (asciiLower s) = digitsLength s := by
  rw [digitsLength, digitsLength, takeWhile_asciiLower isCaseless_isDigit, asciiLower, List.length_map]

theorem signLength_asciiLower (s : Text) : signLength (asciiLower s) = signLength s := by
  cases s with
  | nil => rfl
  | cons c s => exact apply_toLower (f := fun c => if c = '+' ∨ c = '-' then 1 else 0) (by decide) c

theorem mantissaLength_asciiLower (s : Text) : mantissaLength (asciiLower s) = mantissaLength s := by
  have hd : (asciiLower s).drop (digitsLength (asciiLower s)) = asciiLower (s.drop (digitsLength s)) := by
    rw [digitsLength_asciiLower, drop_asciiLower]
  by_cases hp : (s.drop (digitsLength s)).head? = some (char '.')
  · obtain ⟨u, hu⟩ := List.head?_eq_some_iff.mp hp
    rw [hu] at hd
    rw [mantissaLength_of_point hd, mantissaLength_of_point hu, ← asciiLower, digitsLength_asciiLower,
      digitsLength_asciiLower]
  · rw [mantissaLength_of_no_point hp, mantissaLength_of_no_point, digitsLength_asciiLower]
    rwa [hd, ne_eq, head?_asciiLower (by decide)]

theorem exponentLength_asciiLower (s : Text) : exponentLength (asciiLower s) = exponentLength s := by
  have he (c : CodePoint) : (c.toLower = 'e' ∨ c.toLower = 'E') = (c = 'e' ∨ c = 'E') :=
    apply_toLower (f := fun c => c = 'e' ∨ c = 'E') (by decide) c
  cases s with
  | nil => rfl
  | cons c s =>
    rw [asciiLower_cons, exponentLength, exponentLength, signLength_asciiLower, drop_asciiLower,
      digitsLength_asciiLower]
    simp only [he]

theorem literalLength_asciiLower (s : Text) : literalLength (asciiLower s) = literalLength s := by
  unfold literalLength
  dsimp only
  rw [signLength_asciiLower, drop_asciiLower, mantissaLength_asciiLower, drop_asciiLower,
    exponentLength_asciiLower]

def Token.fold : Token → Token
  | .space text => .space (asciiLower text)
  | .ident name => .ident (asciiLower name)
  | .atKeyword name => .atKeyword (asciiLower name)
  | .hash name isIdentifier => .hash (asciiLower name) isIdentifier
  | .string value closed => .string (asciiLower value) closed
  | .url value closed => .url (asciiLower value) closed
  | .number text => .number (asciiLower text)
  | .percentage text => .percentage (asciiLower text)
  | .dimension text unit => .dimension (asciiLower text) (asciiLower unit)
  | .unicodeRange first last => .unicodeRange first last
  | .delimiter text => .delimiter text
  | .fault f => .fault f

def Rewriting.fold : Rewriting where
  place := id
  name := asciiLower
  token := Token.fold
  token_fault _ := rfl
  isSpace_token t := by cases t <;> rfl
  isDelimiter_token _ t := by cases t <;> rfl
  kind_token t := by cases t <;> rfl
  isImportant_token _ t := by
    cases t with
    | ident name => exact congrArg (· == (Text.ofString "important")) (asciiLower_asciiLower name)
    | _ => rfl
  startsWithNewline_token _ t := by
    cases t with
    | space text => exact startsLine_asciiLower text
    | _ => rfl
  endsInString_token _ t := by
    cases t with
    | fault f => cases f <;> rfl
    | _ => rfl

theorem readUnit_folds (h : asciiLower text' = asciiLower text) (s : Text) :
    Folds Token.fold (readUnit text s) (readUnit text' (asciiLower s)) := by
  have hi := startsIdentifier_asciiLower s
  cases hs : startsIdentifier s with
  | true =>
    refine Folds.ite (by rw [hi]) (fun _ => ?_) fun h => absurd hs h
    exact (readName_folds s).map fun _ _ hu => congrArg₂ Token.dimension h hu
  | false =>
    by_cases hp : s.head? = some (char '%')
    · obtain ⟨s, rfl⟩ := List.head?_eq_some_iff.mp hp
      have hl : (char '%').toLower = char '%' := by decide
      rw [asciiLower_cons, hl] at hi ⊢
      rw [readUnit_percent text hs, readUnit_percent text' (hi.trans hs)]
      refine (Folds.const ?_ 0 s).widen rfl
      exact congrArg Token.percentage h
    · rw [readUnit_of_head? text hs hp, readUnit_of_head? text' (hi.trans hs)]
      · refine .const ?_ 0 s
        exact congrArg Token.number h
      · rwa [ne_eq, head?_asciiLower (by decide)]

theorem startsRange_plus : startsRange (c :: char '+' :: s) =
    ((c == char 'u' || c == char 'U') && s.head?.any fun d => isHex d || d == char '?') := by
  cases s with
  | nil => cases hc : (c == char 'u' || c == char 'U') <;> rfl
  | cons d s => rfl

theorem startsRange_asciiLower (c : CodePoint) (s : Text) :
    startsRange (c.toLower :: asciiLower s) = startsRange (c :: s) := by
  have hu : (c.toLower == char 'u' || c.toLower == char 'U') = (c == char 'u' || c == char 'U') :=
    apply_toLower (f := fun c => c == char 'u' || c == char 'U') (by decide) c
  have hd : IsCaseless fun d => isHex d || d == char '?' := isCaseless (by decide)
  by_cases hp : s.head? = some (char '+')
  · obtain ⟨s, rfl⟩ := List.head?_eq_some_iff.mp hp
    have hl : (char '+').toLower = char '+' := by decide
    rw [asciiLower_cons, hl, startsRange_plus, startsRange_plus, any_head?_asciiLower hd, hu]
  · rw [startsRange_of_head? hp, startsRange_of_head?]
    rwa [ne_eq, head?_asciiLower (by decide)]

theorem readRangeEnd_folds (h : asciiLower text' = asciiLower text) (s : Text) :
    Folds Token.fold (readRangeEnd text s) (readRangeEnd text' (asciiLower s)) := by
  have ho := ofHex_congr h
  by_cases hm : s.head? = some (char '-')
  · obtain ⟨s, rfl⟩ := List.head?_eq_some_iff.mp hm
    have hl : (char '-').toLower = char '-' := by decide
    rw [asciiLower_cons, hl]
    cases s with
    | nil => exact ⟨congrArg₂ Token.unicodeRange ho ho, rfl, rfl⟩
    | cons d s =>
      have hr := run_folds isCaseless_isHex 6 (d :: s)
      refine Folds.ite (by rw [isCaseless_isHex d]) (fun _ => ?_) fun _ => ?_
      · exact (hr.widen rfl).map fun _ _ hx => congrArg₂ Token.unicodeRange ho (ofHex_congr hx)
      · exact ⟨congrArg₂ Token.unicodeRange ho ho, rfl, rfl⟩
  · rw [readRangeEnd_of_head? text hm, readRangeEnd_of_head? text']
    · refine .const ?_ 0 s
      exact congrArg₂ Token.unicodeRange ho ho
    · rwa [ne_eq, head?_asciiLower (by decide)]

theorem readRangeRest_folds (h : asciiLower text' = asciiLower text) (s : Text) :
    Folds Token.fold (readRangeRest text s) (readRangeRest text' (asciiLower s)) := by
  have hq : IsCaseless (· == char '?') := isCaseless (by decide)
  have hr := run_folds hq (6 - text.length) s
  rw [← length_eq_of_asciiLower_eq h] at hr
  rw [readRangeRest, readRangeRest, ← length_eq_of_asciiLower_eq h]
  refine Folds.ite ?_ (fun _ => readRangeEnd_folds h s) fun _ => hr.map fun _ _ hx => ?_
  · rw [← List.length_eq_zero_iff, ← List.length_eq_zero_iff, length_eq_of_asciiLower_eq hr.value]
  · exact congrArg₂ Token.unicodeRange (ofHex_append_congr h hx _) (ofHex_append_congr h hx _)

theorem readRange_folds (s : Text) : Folds Token.fold (readRange s) (readRange (asciiLower s)) := by
  have hr := run_folds isCaseless_isHex 6 s
  rw [readRange_eq, readRange_eq, hr.rest]
  exact (readRangeRest_folds hr.value _).widen hr.width

def Lexeme.fold (l : Lexeme) : Lexeme := l.rewrite .fold

theorem fold_urlLexemes {v w : UrlValue} (h : w.fold = v.fold) :
    (urlLexemes w).map Lexeme.fold = (urlLexemes v).map Lexeme.fold := by
  obtain ⟨v, vc⟩ := v
  obtain ⟨w, wc⟩ := w
  obtain ⟨ht, rfl⟩ := UrlValue.mk.inj h
  cases v with
  | none => cases w with
    | none => rfl
    | some w => cases ht
  | some v => cases w with
    | none => cases ht
    | some w =>
      have hw : asciiLower w = asciiLower v := Option.some.inj ht
      cases wc <;> simp [urlLexemes, Lexeme.fold, Lexeme.rewrite, Rewriting.fold, Token.fold, hw]

theorem fold_stringLexemes {v w : StringValue} (h : w.fold = v.fold) :
    (stringLexemes w).map Lexeme.fold = (stringLexemes v).map Lexeme.fold := by
  obtain ⟨v, ve⟩ := v
  obtain ⟨w, we⟩ := w
  obtain ⟨ht, rfl⟩ := StringValue.mk.inj h
  cases we <;> simp [stringLexemes, Lexeme.fold, Lexeme.rewrite, Rewriting.fold, Token.fold, ht]

theorem readAfterName_folds (h : asciiLower text' = asciiLower text) (s : Text) :
    Folds (List.map Lexeme.fold) (readAfterName text s) (readAfterName text' (asciiLower s)) := by
  by_cases hp : s.head? = some (char '(')
  · obtain ⟨s, rfl⟩ := List.head?_eq_some_iff.mp hp
    have hu := pastSpace_folds readUrlFrom_folds s
    refine Folds.ite ?_ (fun _ => ?_) fun _ => ?_
    · rw [h, ← asciiLower, quoteAhead_asciiLower]
    · exact (hu.widen rfl).map fun _ _ => fold_urlLexemes
    · refine .const ?_ 1 s
      exact congrArg (fun name => [Lexeme.opensFunction name]) h
  · rw [readAfterName_of_head? text hp, readAfterName_of_head? text']
    · refine .const ?_ 0 s
      exact congrArg (fun name => [Lexeme.token (.ident name)]) h
    · rwa [ne_eq, head?_asciiLower (by decide)]

theorem readIdentLike_folds (s : Text) :
    Folds (List.map Lexeme.fold) (readIdentLike s) (readIdentLike (asciiLower s)) := by
  have hn := readName_folds s
  rw [readIdentLike, readIdentLike, hn.rest]
  exact (readAfterName_folds hn.value _).widen hn.width

theorem mark_folds (n : ℕ) (text s : Text) :
    Folds (List.map Lexeme.fold) (mark n text s) (mark n text (asciiLower s)) := by
  rw [mark, mark, take_asciiLower, drop_asciiLower]
  exact ⟨rfl, List.length_map _, rfl⟩

theorem readMark_slash_folds (s : Text) : Folds (List.map Lexeme.fold) (readMark (char '/') s)
    (readMark (char '/') (asciiLower s)) := by
  by_cases hs : s.head? = some (char '*')
  · obtain ⟨s, rfl⟩ := List.head?_eq_some_iff.mp hs
    have hl : (char '*').toLower = char '*' := by decide
    rw [asciiLower_cons, hl, readMark_comment, readMark_comment]
    exact ((skipComment_folds s).map fun _ _ _ => rfl).widen rfl
  · rw [readMark_slash hs, readMark_slash]
    · exact mark_folds 0 _ s
    · rwa [ne_eq, head?_asciiLower (by decide)]

theorem readMark_folds (hc : IsCaseFree c) (s : Text) :
    Folds (List.map Lexeme.fold) (readMark c s) (readMark c (asciiLower s)) := by
  by_cases hslash : c = '/'
  · exact hslash ▸ readMark_slash_folds s
  have hn := readName_folds s
  have hi := startsIdentifier_asciiLower s
  have hb : (asciiLower s).head? = some (char '|') ↔ s.head? = some (char '|') := head?_asciiLower (by decide)
  have he : (asciiLower s).head? = some (char '=') ↔ s.head? = some (char '=') := head?_asciiLower (by decide)
  refine Folds.ite (by rw [hi]) (fun _ => ?_) fun _ => ?_
  · exact hn.map fun _ _ h => congrArg (fun name => [Lexeme.token (.atKeyword name)]) h
  refine Folds.ite ?_ (fun _ => ?_) fun _ => ?_
  · rw [any_head?_asciiLower isCaseless_isNameChar, startsEscape_asciiLower]
  · refine hn.map fun _ _ h => ?_
    rw [hi]
    exact congrArg (fun name => [Lexeme.token (.hash name (startsIdentifier s))]) h
  refine Folds.ite Iff.rfl (fun _ => (readString_folds hc s).map fun _ _ => fold_stringLexemes) fun _ => ?_
  refine Folds.ite Iff.rfl (fun h => absurd h hslash) fun _ => ?_
  refine Folds.ite (by rw [startsWith_asciiLower (by decide)]) (fun _ => mark_folds 3 _ s) fun _ => ?_
  refine Folds.ite (and_congr_right fun _ => hb) (fun _ => mark_folds 1 _ s) fun _ => ?_
  exact Folds.ite (and_congr_right fun _ => he) (fun _ => mark_folds 1 _ s) fun _ => mark_folds 0 _ s

theorem bracketOrMark_folds (hc : IsCaseFree c) (s : Text) :
    Folds (List.map Lexeme.fold) (bracketOrMark c s) (bracketOrMark c (asciiLower s)) := by
  unfold bracketOrMark
  split
  · exact .const rfl 1 s
  · exact .const rfl 1 s
  · exact (readMark_folds hc s).widen rfl

theorem nextLexemes_folds (c : CodePoint) (s : Text) :
    Folds (List.map Lexeme.fold) (nextLexemes c s) (nextLexemes c.toLower (asciiLower s)) := by
  refine Folds.ite (by rw [isCaseless_isSpace c]) (fun _ => ?_) fun _ => ?_
  · refine ((runAll_folds isCaseless_isSpace s).widen rfl).map fun _ _ h => ?_
    exact congrArg (fun t => [Lexeme.token (.space t)]) (asciiLower_cons_congr c.toLower_toLower h)
  refine Folds.ite (by rw [startsRange_asciiLower]) (fun _ => ?_) fun _ => ?_
  · rw [drop_asciiLower, take_asciiLower]
    refine ((readRange_folds (s.drop 1)).widen (congrArg (1 + ·) (List.length_map _))).map fun _ _ h => ?_
    exact congrArg (fun t => [Lexeme.token t]) h
  refine Folds.ite ?_ (fun _ => (mark_folds 2 _ s).widen rfl) fun _ => ?_
  · rw [toLower_eq_iff (by decide), startsWith_asciiLower (by decide)]
  refine Folds.ite ?_ (fun _ => readIdentLike_folds (c :: s)) fun hi => ?_
  · rw [← asciiLower_cons, startsIdentifier_asciiLower]
  have hl : literalLength (c.toLower :: asciiLower s) = _ := literalLength_asciiLower (c :: s)
  rw [hl]
  cases literalLength (c :: s) with
  | zero =>
    -- no name begins here, so the character is no letter and stands as it is in the other text
    have hc : IsCaseFree c := by
      refine isCaseFree_of_isNameStart_eq_false (Bool.eq_false_iff.mpr fun hn => hi ?_)
      exact startsIdentifier_of_isNameStart hn
    rw [toLower_of_not_mem hc.1]
    exact bracketOrMark_folds hc s
  | succ n =>
    dsimp only
    rw [drop_asciiLower, take_asciiLower]
    have hd : asciiLower (c.toLower :: asciiLower (s.take n)) = asciiLower (c :: s.take n) :=
      asciiLower_cons_congr c.toLower_toLower (asciiLower_asciiLower _)
    refine ((readUnit_folds hd _).widen (congrArg (1 + ·) (List.length_map _))).map fun _ _ h => ?_
    exact congrArg (fun t => [Lexeme.token t]) h

theorem after_asciiLower (p : Position) (s : Text) : p.after (asciiLower s) = p.after s := by
  have hl (c : CodePoint) : c.toLower = '\n' ↔ c = '\n' := toLower_eq_iff (by decide)
  have hn (p : Position) (c : CodePoint) : p.next c.toLower = p.next c := by
    simp only [Position.next, hl]
  rw [Position.after, Position.after, asciiLower, List.foldl_map]
  simp only [hn]

def Lexeme.foldAt (l : Position × Lexeme) : Position × Lexeme := (l.1, l.2.fold)

theorem lexemesFrom_asciiLower (p : Position) (s : Text) :
    (lexemesFrom p (asciiLower s)).map Lexeme.foldAt = (lexemesFrom p s).map Lexeme.foldAt := by
  fun_induction lexemesFrom p s with
  | case1 p =>
    rw [asciiLower, List.map_nil, lexemesFrom_nil]
  | case2 p c s next ih =>
    have hn : Folds (List.map Lexeme.fold) next (nextLexemes c.toLower (asciiLower s)) :=
      nextLexemes_folds c s
    have hv := congrArg (List.map fun l => (p, l)) hn.value
    rw [asciiLower_cons, lexemesFrom_cons, hn.rest, hn.width, ← asciiLower_cons, take_asciiLower,
      after_asciiLower, List.map_append, List.map_append, ih, List.map_map, List.map_map]
    rw [List.map_map, List.map_map] at hv
    exact congrArg (· ++ _) hv

def cleaned (c : CodePoint) : CodePoint :=
  if c = '\r' ∨ c = '\x0c' then '\n' else if c = '\x00' then '\ufffd' else c

theorem cleaned_toLower (c : CodePoint) : cleaned c.toLower = (cleaned c).toLower := by
  refine forall_toLower (q := fun c d => cleaned d = (cleaned c).toLower) (by decide) (fun c hc => ?_) c
  refine (toLower_of_not_mem ?_).symm
  unfold cleaned
  split
  · decide
  · split
    · decide
    · exact hc

theorem clean_asciiLower (s : Text) : clean (asciiLower s) = asciiLower (clean s) := by
  fun_induction clean s with
  | case1 => rfl
  | case2 s ih => exact congrArg (char '\n' :: ·) ih
  | case3 c s h ih =>
    have hc : ¬ (c.toLower = '\r' ∧ (asciiLower s).head? = some (char '\n')) := by
      rw [head_pair_asciiLower (by decide) (by decide)]
      exact not_head_pair h
    rw [asciiLower_cons, clean_cons hc, ih]
    exact congrArg (· :: asciiLower (clean s)) (cleaned_toLower c)

theorem lexemes_asciiLower (s : Text) :
    (lexemes (asciiLower s)).map Lexeme.foldAt = (lexemes s).map Lexeme.foldAt := by
  rw [lexemes, lexemes, clean_asciiLower, lexemesFrom_asciiLower]

end ColorCensus.Css
