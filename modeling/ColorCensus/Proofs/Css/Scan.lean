import ColorCensus.Proofs.Css.Balance
import ColorCensus.Proofs.Css.Lexing

namespace ColorCensus.Css

open Text Decimal CodePoint

variable {c d : CodePoint} {s t : Text}

def isCurly (c : CodePoint) : Bool := c == Bracket.curly.opening || c == Bracket.curly.closing

def scanned (s : Text) : Text := (bare s).filter isCurly

theorem imbalanceFrom_cons {depth : ℕ} (h : isCurly c = false) :
    imbalanceFrom depth (c :: s) = imbalanceFrom depth s := by
  simp only [isCurly, Bracket.opening, Bracket.closing, Bool.or_eq_false_iff, beq_eq_false_iff_ne] at h
  cases depth <;> simp only [imbalanceFrom, h, if_false]

theorem imbalanceFrom_congr {depth : ℕ} (h : ∀ n, imbalanceFrom n s = imbalanceFrom n t) :
    imbalanceFrom depth (c :: s) = imbalanceFrom depth (c :: t) := by
  cases depth <;> simp only [imbalanceFrom, h]

theorem imbalanceFrom_filter (depth : ℕ) :
    imbalanceFrom depth (s.filter isCurly) = imbalanceFrom depth s := by
  induction s generalizing depth with
  | nil => rfl
  | cons c s ih =>
    cases hc : isCurly c with
    | true =>
      rw [List.filter_cons_of_pos hc]
      exact imbalanceFrom_congr ih
    | false => rw [List.filter_cons_of_neg (by simp [hc]), ih, imbalanceFrom_cons hc]

theorem scanned_nil : scanned [] = [] := by rw [scanned, bare_nil]; rfl

theorem scanned_cons_of_some {r : Text} (h : afterPiece? c s = some r) :
    scanned (c :: s) = scanned r := by
  rw [scanned, bare_cons_of_some h, scanned]

theorem scanned_cons_of_none (h : afterPiece? c s = none) (hc : isCurly c = false) :
    scanned (c :: s) = scanned s := by
  rw [scanned, bare_cons_of_none h, List.filter_cons_of_neg (by simp [hc]), scanned]

theorem scanned_curly (h : isCurly c = true) : scanned (c :: s) = c :: scanned s := by
  have hp : afterPiece? c s = none := by
    simp only [isCurly, Bool.or_eq_true, beq_iff_eq] at h
    rcases h with rfl | rfl <;> simp [afterPiece?, Bracket.opening, Bracket.closing]
  rw [scanned, bare_cons_of_none hp, List.filter_cons_of_pos h, scanned]

def specials : Text := [char '\x7b', char '\x7d', char '"', char '\'', char '\\', char '/']

theorem notMem_specials {p : CodePoint → Bool} (hp : ∀ d ∈ specials, p d = false) (h : p c = true) :
    c ∉ specials := by
  intro hc
  simp [hp c hc] at h

theorem scanned_cons (h : c ∉ specials) : scanned (c :: s) = scanned s := by
  simp only [specials, List.mem_cons, List.not_mem_nil, or_false, not_or] at h
  obtain ⟨ho, hc, hq, hr, he, hs⟩ := h
  refine scanned_cons_of_none ?_ ?_
  · simp [afterPiece?, hq, hr, he, hs]
  · simp [isCurly, Bracket.opening, Bracket.closing, ho, hc]

theorem scanned_append (h : ∀ c ∈ t, c ∉ specials) : scanned (t ++ s) = scanned s := by
  induction t with
  | nil => rfl
  | cons c t ih =>
    obtain ⟨hc, ht⟩ := List.forall_mem_cons.mp h
    rw [List.cons_append, scanned_cons hc, ih ht]

theorem scanned_drop {n : ℕ} (h : ∀ c ∈ s.take n, c ∉ specials) : scanned (s.drop n) = scanned s := by
  have := scanned_append (s := s.drop n) h
  rwa [List.take_append_drop, eq_comm] at this

theorem forall_mem_takeRun {p : CodePoint → Bool} (limit : ℕ) : ∀ c ∈ (takeRun limit p s).1, p c = true := by
  induction s generalizing limit with
  | nil => cases limit <;> simp [takeRun]
  | cons c s ih =>
    cases limit with
    | zero => simp [takeRun]
    | succ limit =>
      by_cases hc : p c = true
      · simpa [takeRun, hc] using ih limit
      · simp [takeRun, hc]

theorem scanned_run {p : CodePoint → Bool} (hp : ∀ d ∈ specials, p d = false) (limit : ℕ) :
    scanned (Read.run limit p s).rest = scanned s := by
  have h : scanned ((takeRun limit p s).1 ++ (takeRun limit p s).2) = scanned (takeRun limit p s).2 :=
    scanned_append fun c hc => notMem_specials hp (forall_mem_takeRun limit c hc)
  rw [takeRun_append] at h
  exact h.symm

theorem scanned_dropWhile {p : CodePoint → Bool} (hp : ∀ d ∈ specials, p d = false) :
    scanned (s.dropWhile p) = scanned s := by
  have h := scanned_append (s := s.dropWhile p) (t := s.takeWhile p)
    fun c hc => notMem_specials hp (List.mem_takeWhile_imp hc)
  rw [List.takeWhile_append_dropWhile] at h
  exact h.symm

theorem isHex_specials : ∀ d ∈ specials, isHex d = false := by decide

theorem isSpace_specials : ∀ d ∈ specials, isSpace d = false := by decide

theorem isDigit_specials : ∀ d ∈ specials, d.isDigit = false := by decide

theorem isNameChar_specials : ∀ d ∈ specials, isNameChar d = false := by decide

theorem scanned_escape : scanned (char '\\' :: d :: s) = scanned s :=
  scanned_cons_of_some (by simp [afterPiece?])

theorem readEscape_split (d : CodePoint) (s : Text) :
    ∃ t, s = t ++ (readEscape (d :: s)).rest ∧ (readEscape (d :: s)).width = t.length + 1 ∧
      ∀ c ∈ t, isHex c = true ∨ isSpace c = true := by
  rw [readEscape]
  split
  · next hd =>
    have hrun : Read.run 6 isHex (d :: s) =
        ⟨d :: (takeRun 5 isHex s).1, (takeRun 5 isHex s).1.length + 1, (takeRun 5 isHex s).2⟩ := by
      simp [Read.run, takeRun, hd]
    have h1 := takeRun_append 5 isHex s
    have h2 := takeRun_append 1 isSpace (takeRun 5 isHex s).2
    refine ⟨(takeRun 5 isHex s).1 ++ (takeRun 1 isSpace (takeRun 5 isHex s).2).1, ?_, ?_, ?_⟩
    · rw [hrun]
      dsimp only [Read.run]
      rw [List.append_assoc, h2, h1]
    · rw [hrun]
      dsimp only [Read.run]
      rw [List.length_append]
      omega
    · intro c hc
      rcases List.mem_append.mp hc with hc | hc
      · exact .inl (forall_mem_takeRun 5 c hc)
      · exact .inr (forall_mem_takeRun 1 c hc)
  · exact ⟨[], rfl, rfl, by simp⟩

theorem scanned_readEscape : scanned (readEscape s).rest = scanned (char '\\' :: s) := by
  cases s with
  | nil =>
    rw [scanned_cons_of_none rfl rfl]
    rfl
  | cons d s =>
    obtain ⟨t, hs, -, ht⟩ := readEscape_split d s
    have h : scanned (t ++ (readEscape (d :: s)).rest) = scanned (readEscape (d :: s)).rest :=
      scanned_append fun c hc => by
        rcases ht c hc with h | h
        · exact notMem_specials isHex_specials h
        · exact notMem_specials isSpace_specials h
    rw [scanned_escape, ← h, ← hs]

theorem scanned_readName : scanned (readName s).rest = scanned s := by
  fun_induction readName s with
  | case1 => rfl
  | case2 c s hc ih => exact ih.trans (scanned_cons (notMem_specials isNameChar_specials hc)).symm
  | case3 c s _ he _ ih =>
    obtain ⟨rfl, -⟩ := he
    exact ih.trans scanned_readEscape
  | case4 => rfl

theorem scanned_drop_sign : scanned (s.drop (signLength s)) = scanned s := by
  cases s with
  | nil => rfl
  | cons c s =>
    rw [signLength]
    split
    · next h => rcases h with rfl | rfl <;> exact (scanned_cons (by decide)).symm
    · rfl

theorem scanned_drop_digits : scanned (s.drop (digitsLength s)) = scanned s := by
  have h : (s.takeWhile CodePoint.isDigit ++ s.dropWhile CodePoint.isDigit).drop (digitsLength s) =
      s.dropWhile CodePoint.isDigit := List.drop_left
  rw [List.takeWhile_append_dropWhile] at h
  rw [h, scanned_dropWhile isDigit_specials]

theorem scanned_drop_mantissa : scanned (s.drop (mantissaLength s)) = scanned s := by
  unfold mantissaLength
  split
  · next t heq =>
    split
    · exact scanned_drop_digits
    · have ht : scanned (char '.' :: t) = scanned s := heq ▸ scanned_drop_digits
      rw [← List.drop_drop, ← List.drop_drop, heq, List.drop_succ_cons, List.drop_zero,
        scanned_drop_digits, ← ht, scanned_cons (by decide)]
  · exact scanned_drop_digits

theorem scanned_drop_exponent : scanned (s.drop (exponentLength s)) = scanned s := by
  cases s with
  | nil => rfl
  | cons c s =>
    rw [exponentLength]
    split
    · next h =>
      have hc : c ∉ specials := by rcases h.1 with rfl | rfl <;> decide
      rw [Nat.add_assoc, ← List.drop_drop, List.drop_succ_cons, List.drop_zero, ← List.drop_drop,
        scanned_drop_digits, scanned_drop_sign, scanned_cons hc]
    · rfl

theorem scanned_drop_literal : scanned (s.drop (literalLength s)) = scanned s := by
  unfold literalLength
  dsimp only
  split
  · rfl
  · rw [← List.drop_drop, scanned_drop_exponent, ← List.drop_drop, scanned_drop_mantissa,
      scanned_drop_sign]

theorem scanned_readUnit : scanned (readUnit t s).rest = scanned s := by
  unfold readUnit
  split
  · exact scanned_readName
  · split
    · exact (scanned_cons (by decide)).symm
    · rfl

theorem scanned_readRangeEnd : scanned (readRangeEnd t s).rest = scanned s := by
  unfold readRangeEnd
  split
  · split
    · exact (scanned_run isHex_specials 6).trans (scanned_cons (by decide)).symm
    · rfl
  · rfl

theorem scanned_readRange : scanned (readRange s).rest = scanned s := by
  unfold readRange
  dsimp only
  split
  · exact scanned_readRangeEnd.trans (scanned_run isHex_specials 6)
  · exact (scanned_run (by decide) _).trans (scanned_run isHex_specials 6)

theorem scanned_range (h : startsRange (c :: s) = true) :
    scanned (readRange (s.drop 1)).rest = scanned (c :: s) := by
  rw [scanned_readRange]
  unfold startsRange at h
  split at h
  · next c d s heq =>
    obtain ⟨rfl, rfl⟩ := List.cons.inj heq
    have hc : c ∉ specials := by
      rw [Bool.and_eq_true, Bool.or_eq_true, beq_iff_eq, beq_iff_eq] at h
      rcases h.1 with rfl | rfl <;> decide
    rw [scanned_cons hc, scanned_cons (by decide)]
    rfl
  · simp at h

theorem scanned_skipComment (h : (afterComment? s).isSome) :
    scanned (skipComment s).rest = scanned (char '/' :: char '*' :: s) := by
  obtain ⟨r, hr⟩ := Option.isSome_iff_exists.mp h
  have hs : (skipComment s).rest = r := by
    clear h
    fun_induction afterComment? s with
    | case1 s => exact Option.some.inj hr
    | case2 c s hn ih =>
      rw [skipComment]
      · exact ih hr
      · exact hn
    | case3 => cases hr
  rw [hs, scanned_cons_of_some (r := r)]
  simpa [afterPiece?] using hr

def endsPointWithLine (quote : CodePoint) : Text → Bool
  | [] => false
  | c :: s =>
    if c = quote then false
    else if c = char '\\' then
      match s with
      | [] => false
      | d :: t =>
        if d = char '\n' then endsPointWithLine quote t
        else
          have := (readEscape_spans (d :: t)).rest_length_le
          (t.take ((readEscape (d :: t)).width - 1)).contains (char '\n') ||
            endsPointWithLine quote (readEscape (d :: t)).rest
    else if c = char '\n' then false
    else endsPointWithLine quote s
termination_by s => s.length
decreasing_by all_goals simp_all only [List.length_cons]; omega

variable {quote : CodePoint}

theorem afterString?_cons (h : c ≠ quote ∧ c ≠ char '\\' ∧ c ≠ char '\n') :
    afterString? quote (c :: s) = afterString? quote s := by
  rw [afterString?.eq_def]
  dsimp only
  rw [if_neg h.1, if_neg h.2.1, if_neg h.2.2]

theorem afterString?_escape (h : char '\\' ≠ quote) :
    afterString? quote (char '\\' :: d :: s) = afterString? quote s := by
  rw [afterString?, if_neg h, if_pos rfl]

theorem afterString?_append (h : ∀ c ∈ t, c ≠ quote ∧ c ≠ char '\\' ∧ c ≠ char '\n') :
    afterString? quote (t ++ s) = afterString? quote s := by
  induction t with
  | nil => rfl
  | cons c t ih =>
    obtain ⟨hc, ht⟩ := List.forall_mem_cons.mp h
    rw [List.cons_append, afterString?_cons hc, ih ht]

theorem afterString?_readEscape (hq : quote = char '"' ∨ quote = char '\'')
    (hn : (s.take ((readEscape (d :: s)).width - 1)).contains (char '\n') = false) :
    afterString? quote (readEscape (d :: s)).rest = afterString? quote s := by
  obtain ⟨t, hs, hw, ht⟩ := readEscape_split d s
  have htake : s.take ((readEscape (d :: s)).width - 1) = t := by
    rw [hw, Nat.add_sub_cancel]
    conv_lhs => rw [hs]
    exact List.take_left
  rw [htake] at hn
  have h : afterString? quote (t ++ (readEscape (d :: s)).rest) =
      afterString? quote (readEscape (d :: s)).rest := by
    refine afterString?_append fun c hc => ?_
    have hnl : c ≠ char '\n' := by
      rintro rfl
      simp [hc] at hn
    -- what an escape holds behind its first digit are digits and a space
    have hs : isHex c = true ∨ isSpace c = true := ht c hc
    refine ⟨?_, ?_, hnl⟩
    · rintro rfl
      rcases hq with rfl | rfl <;> exact absurd hs (by decide)
    · rintro rfl
      exact absurd hs (by decide)
  rw [← h, ← hs]

theorem afterString?_of_closed (hq : quote = char '"' ∨ quote = char '\'')
    (hc : (readString quote s).value.ending = .closed) (hp : endsPointWithLine quote s = false) :
    afterString? quote s = some (readString quote s).rest := by
  fun_induction readString quote s with
  | case1 => cases hc
  | case2 s => rw [afterString?.eq_def]; exact if_pos rfl
  | case3 => cases hc
  | case4 t hne ih =>
    rw [endsPointWithLine, if_neg hne, if_pos rfl, if_pos rfl] at hp
    rw [afterString?_escape hne]
    exact ih hc hp
  | case5 d t hd escape _ hne ih =>
    rw [endsPointWithLine, if_neg hne, if_pos rfl, if_neg hd, Bool.or_eq_false_iff] at hp
    rw [afterString?_escape hne, ← afterString?_readEscape hq hp.1]
    exact ih hc hp.2
  | case6 s => cases hc
  | case7 c s hne he hn ih =>
    rw [endsPointWithLine.eq_def] at hp
    simp only [hne, he, hn, if_false] at hp
    rw [afterString?_cons ⟨hne, he, hn⟩]
    exact ih hc hp

end ColorCensus.Css
