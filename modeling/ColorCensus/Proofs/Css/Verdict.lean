import ColorCensus.Proofs.Css.Scan

namespace ColorCensus.Css

open Text Decimal CodePoint

variable {c : CodePoint} {s t : Text}

def Lexeme.isLoose : Lexeme → Bool
  | .token (.url ..) => true
  | .token (.string _ closed) => !closed
  | .token (.fault _) => true
  | _ => false

def isLoose (c : CodePoint) (s : Text) : Bool :=
  (nextLexemes c s).value.any Lexeme.isLoose ||
    (decide (c = char '"' ∨ c = char '\'') && endsPointWithLine c s) ||
    (decide (c = char '/' ∧ s.head? = some (char '*')) && (afterComment? (s.drop 1)).isNone)

theorem isLoose_urlLexemes (v : UrlValue) : (urlLexemes v).any Lexeme.isLoose = true := by
  unfold urlLexemes
  split
  · rfl
  · split <;> rfl

theorem ending_of_stringLexemes {v : StringValue}
    (h : (stringLexemes v).any Lexeme.isLoose = false) : v.ending = .closed := by
  unfold stringLexemes at h
  split at h
  · assumption
  · cases h
  · cases h

def Faithful (s : Text) (r : Read (List Lexeme)) : Prop :=
  r.value.any Lexeme.isLoose = false →
    scanned s = r.value.flatMap Lexeme.curly ++ scanned r.rest

theorem faithful_of_isMute {r : Read (List Lexeme)} (hr : ∀ l ∈ r.value, l.IsMute)
    (hs : scanned r.rest = scanned s) : Faithful s r := by
  intro _
  have hc : r.value.flatMap Lexeme.curly = [] := List.flatMap_eq_nil_iff.mpr fun l hl => (hr l hl).2
  rw [hc, List.nil_append, hs]

theorem faithful_token {r : Read Token} {n : ℕ} (h : scanned r.rest = scanned s) :
    Faithful s ((r.widen n).map fun t => [.token t]) := fun _ => h.symm

theorem faithful_urlLexemes (r : Read UrlValue) : Faithful s (r.map urlLexemes) := by
  intro h
  exact absurd (isLoose_urlLexemes r.value) (Bool.eq_false_iff.mp h)

theorem faithful_readAfterName (name : Text) : Faithful s (readAfterName name s) := by
  unfold readAfterName
  split
  · split
    · exact faithful_urlLexemes _
    · refine faithful_of_isMute (by simp [Lexeme.IsMute, Lexeme.curly]) ?_
      exact (scanned_cons (by decide)).symm
  · exact faithful_of_isMute (by simp [Lexeme.IsMute, Lexeme.curly]) rfl

theorem faithful_readIdentLike : Faithful s (readIdentLike s) := by
  intro h
  rw [← scanned_readName]
  exact faithful_readAfterName _ h

theorem faithful_mark_startsWith {n : ℕ} {u : Text} (h : startsWith u s = true) (hn : u.length = n)
    (hc : c ∉ specials) (hu : ∀ c ∈ u, c ∉ specials) : Faithful (c :: s) (mark n t s) := by
  obtain ⟨r, rfl⟩ := startsWith_iff.mp h
  refine faithful_of_isMute (isMute_mark _ _ _) ?_
  rw [scanned_cons hc]
  exact scanned_drop (by rwa [← hn, List.take_left])

theorem faithful_mark_head? (h : s.head? = some d) (hc : c ∉ specials) (hd : d ∉ specials) :
    Faithful (c :: s) (mark 1 t s) := by
  obtain ⟨s, rfl⟩ := List.head?_eq_some_iff.mp h
  refine faithful_of_isMute (isMute_mark _ _ _) ?_
  rw [scanned_cons hc]
  exact scanned_drop (by simpa using hd)

theorem faithful_mark_zero (ho : Bracket.opened? c = none) (hc : Bracket.closed? c = none)
    (hi : startsIdentifier (c :: s) = false) (hq : ¬ (c = char '"' ∨ c = char '\''))
    (hr : ¬ c = char '/') : Faithful (c :: s) (mark 0 t s) := by
  refine faithful_of_isMute (isMute_mark _ _ _) ?_
  change scanned s = _
  by_cases he : c = char '\\'
  · -- a backslash is a mark only before a line feed, and the scan drops both
    subst he
    have hs : startsLine s = true := by
      simpa [startsIdentifier, startsEscape, isNameStart, CodePoint.isAlpha, CodePoint.toNat] using hi
    unfold startsLine at hs
    split at hs
    · rw [scanned_escape, scanned_cons (by decide)]
    · cases hs
  · refine (scanned_cons ?_).symm
    rw [not_or] at hq
    have hcurly : c ≠ char '\x7b' ∧ c ≠ char '\x7d' := by
      constructor
      · rintro rfl
        cases ho
      · rintro rfl
        cases hc
    simp [specials, hcurly, hq, hr, he]

theorem faithful_readString (hq : c = char '"' ∨ c = char '\'') (h : endsPointWithLine c s = false) :
    Faithful (c :: s) ((readString c s).map stringLexemes) := by
  intro hv
  have hend : (readString c s).value.ending = .closed := ending_of_stringLexemes hv
  have hslash : ¬ c = '/' := by rcases hq with rfl | rfl <;> decide
  refine faithful_of_isMute (isMute_stringLexemes _) (scanned_cons_of_some ?_).symm hv
  rw [afterPiece?, if_neg fun h => hslash h.1, if_pos hq]
  exact afterString?_of_closed hq hend h

theorem faithful_slash (h : ∀ t, s ≠ char '*' :: t) : Faithful (char '/' :: s) (mark 0 t s) := by
  refine faithful_of_isMute (isMute_mark _ _ _) (scanned_cons_of_none ?_ rfl).symm
  rw [afterPiece?, if_neg, if_neg (by decide), if_neg (by decide)]
  rintro ⟨-, h'⟩
  obtain ⟨s, rfl⟩ := List.head?_eq_some_iff.mp h'
  exact h s rfl

theorem faithful_readMark (ho : Bracket.opened? c = none) (hc : Bracket.closed? c = none)
    (hi : startsIdentifier (c :: s) = false)
    (hp : c = char '"' ∨ c = char '\'' → endsPointWithLine c s = false)
    (ha : c = char '/' ∧ s.head? = some (char '*') → (afterComment? (s.drop 1)).isSome) :
    Faithful (c :: s) (readMark c s) := by
  unfold readMark
  split
  · next h =>
    obtain ⟨rfl, -⟩ := h
    refine faithful_of_isMute (by simp [Read.map, Lexeme.IsMute, Lexeme.curly]) ?_
    exact scanned_readName.trans (scanned_cons (by decide)).symm
  · split
    · next h =>
      obtain ⟨rfl, -⟩ := h
      refine faithful_of_isMute (by simp [Read.map, Lexeme.IsMute, Lexeme.curly]) ?_
      exact scanned_readName.trans (scanned_cons (by decide)).symm
    · split
      · next hq => exact faithful_readString hq (hp hq)
      · next hq =>
        split
        · next hslash =>
          subst hslash
          split
          · exact faithful_of_isMute (by simp [Read.map]) (scanned_skipComment (ha ⟨rfl, rfl⟩))
          · next h => exact faithful_slash h
        · next hslash =>
          split
          · next h =>
            obtain ⟨rfl, h⟩ := h
            exact faithful_mark_startsWith h rfl (by decide) (by decide)
          · split
            · next h =>
              obtain ⟨rfl, h⟩ := h
              exact faithful_mark_head? h (by decide) (by decide)
            · split
              · next h =>
                have hplain : ∀ c ∈ ([char '~', char '|', char '^', char '$', char '*'] : Text),
                    c ∉ specials := by decide
                exact faithful_mark_head? h.2 (hplain c (List.contains_iff_mem.mp h.1)) (by decide)
              · exact faithful_mark_zero ho hc hi hq hslash

theorem Bracket.eq_opening {b : Bracket} (h : Bracket.opened? c = some b) : c = b.opening := by
  unfold Bracket.opened? at h
  split at h
  · cases h
    assumption
  · split at h
    · cases h
      assumption
    · split at h
      · cases h
        assumption
      · cases h

theorem Bracket.eq_closing {b : Bracket} (h : Bracket.closed? c = some b) : c = b.closing := by
  unfold Bracket.closed? at h
  split at h
  · cases h
    assumption
  · split at h
    · cases h
      assumption
    · split at h
      · cases h
        assumption
      · cases h

theorem faithful_opens (b : Bracket) : Faithful (b.opening :: s) ⟨[.opens b], 1, s⟩ := by
  intro _
  cases b with
  | round => exact scanned_cons (by decide)
  | square => exact scanned_cons (by decide)
  | curly => exact scanned_curly rfl

theorem faithful_closes (b : Bracket) : Faithful (b.closing :: s) ⟨[.closes b], 1, s⟩ := by
  intro _
  cases b with
  | round => exact scanned_cons (by decide)
  | square => exact scanned_cons (by decide)
  | curly => exact scanned_curly rfl

theorem faithful_nextLexemes
    (hp : c = char '"' ∨ c = char '\'' → endsPointWithLine c s = false)
    (ha : c = char '/' ∧ s.head? = some (char '*') → (afterComment? (s.drop 1)).isSome) :
    Faithful (c :: s) (nextLexemes c s) := by
  unfold nextLexemes
  split
  · next hc =>
    refine faithful_of_isMute (by simp [Read.map, Read.widen, Lexeme.IsMute, Lexeme.curly]) ?_
    rw [scanned_cons (notMem_specials isSpace_specials hc)]
    exact scanned_dropWhile isSpace_specials
  · split
    · next hr => exact faithful_token (scanned_range hr)
    · split
      · next h =>
        obtain ⟨rfl, h⟩ := h
        exact faithful_mark_startsWith h rfl (by decide) (by decide)
      · split
        · exact faithful_readIdentLike
        · next hi =>
          split
          · next n hn =>
            have hd : scanned (s.drop n) = scanned (c :: s) := by
              rw [← scanned_drop_literal (s := c :: s), hn, List.drop_succ_cons]
            exact faithful_token (scanned_readUnit.trans hd)
          · split
            · next b hb => exact Bracket.eq_opening hb ▸ faithful_opens b
            · next b _ hb => exact Bracket.eq_closing hb ▸ faithful_closes b
            · next ho hc => exact faithful_readMark ho hc (by simpa using hi) hp ha

theorem scanned_next (h : isLoose c s = false) :
    scanned (c :: s) =
      (nextLexemes c s).value.flatMap Lexeme.curly ++ scanned (nextLexemes c s).rest := by
  rw [isLoose, Bool.or_eq_false_iff, Bool.or_eq_false_iff] at h
  obtain ⟨⟨hv, hp⟩, ha⟩ := h
  refine faithful_nextLexemes ?_ ?_ hv
  · intro hq
    simpa [hq] using hp
  · intro hc
    simpa [hc, Option.isSome_iff_ne_none] using ha

def accepts (before s : Text) : Bool := (imbalanceFrom 0 (before ++ scanned s)).isNone

def turns (before : Text) : Text → Nat
  | [] => 0
  | c :: s =>
    let next := nextLexemes c s
    let after := before ++ next.value.flatMap Lexeme.curly
    (if isLoose c s ∧ accepts before (c :: s) ≠ accepts after next.rest then 1 else 0) +
      turns after next.rest
termination_by s => s.length
decreasing_by exact (nextLexemes_spans c s).rest_length_lt (nextLexemes_width_ne_zero c s)

theorem turns_cons (before : Text) (c : CodePoint) (s : Text) :
    turns before (c :: s) =
      (if isLoose c s ∧ accepts before (c :: s) ≠
          accepts (before ++ (nextLexemes c s).value.flatMap Lexeme.curly) (nextLexemes c s).rest
        then 1 else 0) +
      turns (before ++ (nextLexemes c s).value.flatMap Lexeme.curly) (nextLexemes c s).rest := by
  rw [turns]

theorem accepts_next (before : Text) (h : isLoose c s = false) :
    accepts before (c :: s) =
      accepts (before ++ (nextLexemes c s).value.flatMap Lexeme.curly) (nextLexemes c s).rest := by
  rw [accepts, accepts, scanned_next h, List.append_assoc]

theorem even_turn_add_iff {turned : Prop} [Decidable turned] {x y z : Bool} {n : ℕ}
    (ht : turned ↔ x ≠ y) (h : Even n ↔ y = z) : Even ((if turned then 1 else 0) + n) ↔ x = z := by
  by_cases hxy : x = y
  · rw [if_neg (by simp [ht, hxy]), Nat.zero_add, h, hxy]
  · rw [if_pos (ht.mpr hxy), Nat.add_comm, Nat.even_add_one, h]
    clear ht h
    revert x y z
    decide

theorem even_turns_iff (p : Position) (before : Text) :
    Even (turns before s) ↔
      accepts before s = accepts (before ++ (lexemesFrom p s).flatMap (·.2.curly)) [] := by
  fun_induction lexemesFrom p s generalizing before with
  | case1 p => simp [turns]
  | case2 p c s next ih =>
    have hl : (next.value.map fun l => (p, l)).flatMap (·.2.curly) = next.value.flatMap Lexeme.curly :=
      List.flatMap_map ..
    -- the first token turns the verdict or not; the rest is the hypothesis
    rw [List.flatMap_append, hl, ← List.append_assoc, turns_cons]
    refine even_turn_add_iff ?_ (ih (before ++ next.value.flatMap Lexeme.curly))
    refine and_iff_right_of_imp fun hne => ?_
    cases hl : isLoose c s with
    | true => rfl
    | false => exact absurd (accepts_next before hl) hne

theorem imbalance_eq_none_iff : imbalance s = none ↔ accepts [] s = true := by
  rw [accepts, List.nil_append, scanned, imbalanceFrom_filter, imbalance, Option.isNone_iff_eq_none]

theorem balanced_read_iff_accepts :
    Node.Balanced (Node.read s) ↔
      accepts ((lexemes s).flatMap (·.2.curly)) [] = true ∧
        crosses [] ((lexemes s).map (·.2)) = false := by
  rw [balanced_read_iff, matched_iff, accepts, scanned_nil, List.append_nil,
    Option.isNone_iff_eq_none, List.flatMap_map]
  rfl

theorem even_turns_nil_iff (hs : ∀ c ∈ s, c ≠ '\r' ∧ c ≠ '\x0c' ∧ c ≠ '\x00') :
    Even (turns [] s) ↔ accepts [] s = accepts ((lexemes s).flatMap (·.2.curly)) [] := by
  rw [lexemes, clean_of_forall hs, even_turns_iff .start]
  rfl

def hasLoose : Text → Bool
  | [] => false
  | c :: s => isLoose c s || hasLoose (nextLexemes c s).rest
termination_by s => s.length
decreasing_by exact (nextLexemes_spans c s).rest_length_lt (nextLexemes_width_ne_zero c s)

theorem turns_eq_zero {before : Text} (h : hasLoose s = false) : turns before s = 0 := by
  fun_induction hasLoose s generalizing before with
  | case1 => rw [turns]
  | case2 c s ih =>
    obtain ⟨hl, hr⟩ := Bool.or_eq_false_iff.mp h
    rw [turns_cons, if_neg (by simp [hl]), ih hr]

theorem imbalance_eq_none_iff_balanced (hs : ∀ c ∈ s, c ≠ '\r' ∧ c ≠ '\x0c' ∧ c ≠ '\x00')
    (hl : hasLoose s = false) (hc : crosses [] ((lexemes s).map (·.2)) = false) :
    imbalance s = none ↔ Node.Balanced (Node.read s) := by
  have heven : Even (turns [] s) := by
    rw [turns_eq_zero hl]
    exact Even.zero
  rw [imbalance_eq_none_iff, balanced_read_iff_accepts, (even_turns_nil_iff hs).mp heven,
    and_iff_left hc]

theorem imbalance_agrees_iff (hs : ∀ c ∈ s, c ≠ '\r' ∧ c ≠ '\x0c' ∧ c ≠ '\x00') :
    (imbalance s = none ↔ Node.Balanced (Node.read s)) ↔
      (crosses [] ((lexemes s).map (·.2)) = true ∧ imbalance s ≠ none) ∨
        (crosses [] ((lexemes s).map (·.2)) = false ∧ Even (turns [] s)) := by
  rw [even_turns_nil_iff hs, balanced_read_iff_accepts, ne_eq, imbalance_eq_none_iff]
  generalize crosses [] ((lexemes s).map (·.2)) = x
  generalize accepts [] s = y
  generalize accepts ((lexemes s).flatMap (·.2.curly)) [] = z
  revert x y z
  decide

theorem imbalance_agrees_twice_turned :
    (∀ c ∈ ofString "a\x7bb:url(\x7b) url(\x7d)\x7d", c ≠ '\r' ∧ c ≠ '\x0c' ∧ c ≠ '\x00') ∧
      (imbalance "a\x7bb:url(\x7b) url(\x7d)\x7d" = none ↔
        Node.Balanced (Node.read "a\x7bb:url(\x7b) url(\x7d)\x7d")) :=
  ⟨by decide, (imbalance_agrees_iff (by decide)).mpr
    (.inr ⟨by decide +kernel, by decide +kernel⟩)⟩

theorem imbalance_disagrees :
    (imbalance "a\x7bbackground:url(\x7b)\x7d" = some .missing ∧
      Node.Balanced (Node.read "a\x7bbackground:url(\x7b)\x7d")) ∧
    (imbalance "a\x7bb:\"\\41\n\x7b\"\x7d" = some .missing ∧
      Node.Balanced (Node.read "a\x7bb:\"\\41\n\x7b\"\x7d")) ∧
    (imbalance "a\x7bcolor:rgb(1\x7d" = none ∧
      ¬ Node.Balanced (Node.read "a\x7bcolor:rgb(1\x7d")) := by
  decide +kernel

end ColorCensus.Css
