import ColorCensus.Css.Node
import ColorCensus.Proofs.Text.Digits
import ColorCensus.Proofs.Text.Split

namespace ColorCensus.Css

open Text Decimal CodePoint

variable {c d : CodePoint} {p : Position} {s t : Text}

theorem startsRange_eq_false (h : c ≠ char 'u' ∧ c ≠ char 'U') : startsRange (c :: s) = false := by
  unfold startsRange
  split
  · next heq =>
    obtain ⟨rfl, -⟩ := List.cons.inj heq
    simp [h.1, h.2]
  · rfl

theorem startsEscape_eq_false (h : c ≠ char '\\') : startsEscape (c :: s) = false := by
  unfold startsEscape
  split
  · next heq => exact absurd (List.cons.inj heq).1 h
  · rfl

theorem startsIdentifier_eq_false (hm : c ≠ char '-') (hn : isNameStart c = false)
    (he : c ≠ char '\\') : startsIdentifier (c :: s) = false := by
  unfold startsIdentifier
  split
  · rfl
  · next heq => exact absurd (List.cons.inj heq).1 hm
  · next heq =>
    obtain ⟨rfl, rfl⟩ := List.cons.inj heq
    rw [hn, startsEscape_eq_false he, Bool.false_or]

def EndsNumber (s : Text) : Prop :=
  ∀ c ∈ s.head?, isNameChar c = false ∧ c ≠ char '\\' ∧ c ≠ char '.' ∧ c ≠ char '%'

theorem EndsNumber.digitsLength (h : EndsNumber s) (ht : ∀ c ∈ t, c.isDigit = true) :
    digitsLength (t ++ s) = t.length := by
  rw [Decimal.digitsLength, takeWhile_append_of_head? ht]
  intro c hc
  have hname := (h c hc).1
  rw [isNameChar, Bool.or_eq_false_iff, Bool.or_eq_false_iff] at hname
  exact hname.1.2

theorem EndsNumber.exponentLength (h : EndsNumber s) : exponentLength s = 0 := by
  cases s with
  | nil => rfl
  | cons c s =>
    have hc := (h c rfl).1
    rw [Decimal.exponentLength, if_neg]
    rintro ⟨rfl | rfl, -⟩ <;> exact absurd hc (by decide)

theorem EndsNumber.readUnit (h : EndsNumber s) : readUnit t s = ⟨.number t, 0, s⟩ := by
  cases s with
  | nil => rfl
  | cons c s =>
    obtain ⟨hn, he, -, hp⟩ := h c rfl
    rw [isNameChar, Bool.or_eq_false_iff, Bool.or_eq_false_iff] at hn
    have hm : c ≠ char '-' := by simpa using hn.2
    unfold Css.readUnit
    rw [if_neg (by simp [startsIdentifier_eq_false hm hn.1.1 he])]
    split
    · next heq => exact absurd (List.cons.inj heq).1 hp
    · rfl

inductive Numeral : Text → Prop where
  | whole (c : CodePoint) (s : Text) (h : ∀ d ∈ c :: s, d.isDigit = true) : Numeral (c :: s)
  | fraction (c : CodePoint) (s t : Text) (h : ∀ d ∈ c :: s, d.isDigit = true)
    (ht : ∀ d ∈ t, d.isDigit = true) (h0 : t ≠ []) : Numeral (c :: s ++ char '.' :: t)

theorem signLength_of_isDigit (h : c.isDigit = true) : signLength (c :: s) = 0 := by
  rw [signLength, if_neg]
  rintro (rfl | rfl) <;> exact absurd h (by decide)

theorem mantissaLength_whole (h : EndsNumber s) (ht : ∀ c ∈ t, c.isDigit = true) :
    mantissaLength (t ++ s) = t.length := by
  unfold mantissaLength
  rw [h.digitsLength ht, List.drop_left]
  split
  · exact absurd rfl (h (char '.') rfl).2.2.1
  · rfl

theorem mantissaLength_fraction {r : Text} (h : EndsNumber r) (hs : ∀ c ∈ s, c.isDigit = true)
    (ht : ∀ c ∈ t, c.isDigit = true) (h0 : t ≠ []) :
    mantissaLength (s ++ char '.' :: (t ++ r)) = s.length + 1 + t.length := by
  have hd : digitsLength (s ++ char '.' :: (t ++ r)) = s.length := by
    rw [Decimal.digitsLength, takeWhile_append_of_head? hs (by rintro c ⟨⟩; decide)]
  have hl := List.length_pos_iff.mpr h0
  unfold mantissaLength
  rw [hd, List.drop_left]
  simp only [h.digitsLength ht]
  rw [if_neg hl.ne']

theorem literalLength_eq {n : ℕ} (hs : signLength s = 0) (hm : mantissaLength s = n) (hn : n ≠ 0)
    (he : exponentLength (s.drop n) = 0) : literalLength s = n := by
  simp only [literalLength, hs, List.drop_zero, hm, if_neg hn, Nat.zero_add, he, Nat.add_zero]

theorem Numeral.literalLength (h : Numeral t) (hs : EndsNumber s) :
    literalLength (t ++ s) = t.length := by
  have he : Decimal.exponentLength ((t ++ s).drop t.length) = 0 := by
    rw [List.drop_left]
    exact hs.exponentLength
  cases h with
  | whole c t ht =>
    have hc := signLength_of_isDigit (s := t ++ s) (ht c (by simp))
    exact literalLength_eq hc (mantissaLength_whole hs ht) (by simp) he
  | fraction c t u ht hu h0 =>
    have hc := signLength_of_isDigit (s := t ++ (char '.' :: u ++ s)) (ht c (by simp))
    have hm := mantissaLength_fraction hs ht hu h0
    have hl : (c :: t ++ char '.' :: u).length = (c :: t).length + 1 + u.length := by
      simp only [List.length_append, List.length_cons]
      omega
    rw [hl] at he ⊢
    simp only [List.append_assoc, List.cons_append] at hc hm he ⊢
    exact literalLength_eq hc hm (by omega) he

theorem Numeral.forall_mem {q : CodePoint → Prop} (h : Numeral t) (hd : ∀ c, c.isDigit = true → q c)
    (hp : q (char '.')) : ∀ c ∈ t, q c := by
  cases h with
  | whole c s hs => exact fun d h => hd d (hs d h)
  | fraction c s t hs ht =>
    exact List.forall_mem_append.mpr
      ⟨fun d h => hd d (hs d h), List.forall_mem_cons.mpr ⟨hp, fun d h => hd d (ht d h)⟩⟩

theorem Numeral.exists_cons (h : Numeral t) : ∃ c s, t = c :: s ∧ c.isDigit = true := by
  cases h with
  | whole c s h => exact ⟨c, s, rfl, h c (by simp)⟩
  | fraction c s t h => exact ⟨c, s ++ char '.' :: t, rfl, h c (by simp)⟩

theorem classes_of_isDigit (h : c.isDigit = true) :
    isSpace c = false ∧ isNameStart c = false ∧
      c ≠ char 'u' ∧ c ≠ char 'U' ∧ c ≠ char '-' ∧ c ≠ char '\\' := by
  obtain ⟨n, rfl⟩ := exists_of_isDigit h
  clear h
  revert n
  decide

theorem lexemesFrom_of_next {l : List Lexeme}
    (h : nextLexemes c (t ++ s) = ⟨l, t.length + 1, s⟩) :
    lexemesFrom p (c :: t ++ s) = l.map (fun x => (p, x)) ++ lexemesFrom (p.after (c :: t)) s := by
  rw [List.cons_append, lexemesFrom_cons, h]
  dsimp only
  rw [List.take_succ_cons, List.take_left]

theorem lexemesFrom_numeral (h : Numeral t) (hs : EndsNumber s) :
    lexemesFrom p (t ++ s) = (p, .token (.number t)) :: lexemesFrom (p.after t) s := by
  have hl := h.literalLength hs
  obtain ⟨c, t, rfl, hc⟩ := h.exists_cons
  obtain ⟨hspace, hname, hu, hU, hminus, hescape⟩ := classes_of_isDigit hc
  have hi : startsIdentifier (c :: (t ++ s)) = false := startsIdentifier_eq_false hminus hname hescape
  refine lexemesFrom_of_next (l := [.token (.number (c :: t))]) ?_
  rw [nextLexemes, if_neg (by simp [hspace]), if_neg (by simp [startsRange_eq_false ⟨hu, hU⟩]),
    if_neg (by simp [hminus]), if_neg (by simp [hi]), ← List.cons_append, hl]
  dsimp only [List.length_cons]
  rw [List.take_left, List.drop_left, hs.readUnit]
  simp [Read.map, Read.widen, Nat.add_comm]

theorem nextLexemes_mark (hc : isSpace c = false ∧ isNameStart c = false ∧
      c ≠ char 'u' ∧ c ≠ char 'U' ∧ c ≠ char '-' ∧ c ≠ char '\\')
    (hb : Bracket.opened? c = none ∧ Bracket.closed? c = none) (hl : literalLength (c :: s) = 0) :
    nextLexemes c s = (readMark c s).widen 1 := by
  obtain ⟨hspace, hname, hu, hU, hminus, hescape⟩ := hc
  have hi : startsIdentifier (c :: s) = false := startsIdentifier_eq_false hminus hname hescape
  rw [nextLexemes, if_neg (by simp [hspace]), if_neg (by simp [startsRange_eq_false ⟨hu, hU⟩]),
    if_neg fun h => hminus h.1, if_neg (by simp [hi]), hl]
  dsimp only
  rw [hb.1, hb.2]

def punctuation : Text := ",:;()[]\x7b\x7d"

def punctuationLexeme (c : CodePoint) : Lexeme :=
  match Bracket.opened? c, Bracket.closed? c with
  | some b, _ => .opens b
  | none, some b => .closes b
  | none, none => .token (.delimiter [c])

theorem classes_of_mem_punctuation : ∀ c ∈ punctuation,
    isSpace c = false ∧ isNameStart c = false ∧
      c ≠ char 'u' ∧ c ≠ char 'U' ∧ c ≠ char '-' ∧ c ≠ char '\\' := by
  decide

theorem lexemesFrom_punctuation (h : c ∈ punctuation) : lexemesFrom p (c :: s) =
    (p, punctuationLexeme c) :: lexemesFrom (p.after [c]) s := by
  obtain ⟨hspace, hname, hu, hU, hminus, hescape⟩ := classes_of_mem_punctuation c h
  have hi : startsIdentifier (c :: s) = false := startsIdentifier_eq_false hminus hname hescape
  refine lexemesFrom_of_next (t := []) (l := [punctuationLexeme c]) ?_
  rw [List.nil_append, nextLexemes, if_neg (by simp [hspace]), if_neg (by simp [startsRange_eq_false ⟨hu, hU⟩]),
    if_neg fun h => hminus h.1, if_neg (by simp [hi])]
  have h : c ∈ [char ',', char ':', char ';', char '(', char ')', char '[', char ']', char '\x7b',
    char '\x7d'] := h
  simp only [List.mem_cons, List.not_mem_nil, or_false] at h
  rcases h with rfl | rfl | rfl | rfl | rfl | rfl | rfl | rfl | rfl <;> rfl

theorem lexemesFrom_comma :
    lexemesFrom p (char ',' :: s) = (p, .token (.delimiter [char ','])) :: lexemesFrom (p.after [char ',']) s :=
  lexemesFrom_punctuation (by decide)

theorem lexemesFrom_close :
    lexemesFrom p (char ')' :: s) = (p, .closes .round) :: lexemesFrom (p.after [char ')']) s :=
  lexemesFrom_punctuation (by decide)

theorem lexemesFrom_isSpace (hc : isSpace c = true) (h : ∀ d ∈ s.head?, isSpace d = false) :
    lexemesFrom p (c :: s) = (p, .token (.space [c])) :: lexemesFrom (p.after [c]) s := by
  have ht : s.takeWhile isSpace = [] ∧ s.dropWhile isSpace = s := by
    cases s with
    | nil => exact ⟨rfl, rfl⟩
    | cons d s => simp [h d rfl]
  refine lexemesFrom_of_next (t := []) (l := [.token (.space [c])]) ?_
  rw [List.nil_append, nextLexemes, if_pos hc, Read.runAll, ht.1, ht.2]
  rfl

theorem lexemesFrom_space (h : ∀ c ∈ s.head?, isSpace c = false) :
    lexemesFrom p (char ' ' :: s) = (p, .token (.space [char ' '])) :: lexemesFrom (p.after [char ' ']) s :=
  lexemesFrom_isSpace (by decide) h

theorem readName_append (ht : ∀ c ∈ t, isNameChar c = true)
    (hs : ∀ c ∈ s.head?, isNameChar c = false ∧ c ≠ char '\\') :
    readName (t ++ s) = ⟨t, t.length, s⟩ := by
  induction t with
  | nil =>
    cases s with
    | nil => rw [List.nil_append, readName]; rfl
    | cons c s =>
      obtain ⟨hn, he⟩ := hs c rfl
      rw [List.nil_append, readName, if_neg (by simp [hn]), if_neg (fun h => he h.1)]
      rfl
  | cons c t ih =>
    rw [List.cons_append, readName, if_pos (ht c (by simp)), ih fun d hd => ht d (by simp [hd])]
    rfl

theorem isSpace_of_isNameStart (h : isNameStart c = true) : isSpace c = false := by
  cases hs : isSpace c with
  | false => rfl
  | true =>
    simp only [isSpace, Bool.or_eq_true, beq_iff_eq] at hs
    rcases hs with (rfl | rfl) | rfl <;> exact absurd h (by decide)

theorem startsIdentifier_of_isNameStart (h : isNameStart c = true) : startsIdentifier (c :: s) = true := by
  unfold startsIdentifier
  split
  · next heq => cases heq
  · next heq =>
    obtain ⟨rfl, -⟩ := List.cons.inj heq
    exact absurd h (by decide)
  · next heq =>
    obtain ⟨rfl, -⟩ := List.cons.inj heq
    rw [h, Bool.true_or]

theorem lexemesFrom_function (ht : ∀ d ∈ c :: t, isNameChar d = true)
    (hc : isNameStart c = true ∧ c ≠ char 'u' ∧ c ≠ char 'U') (hu : asciiLower (c :: t) ≠ "url") :
    lexemesFrom p (c :: t ++ char '(' :: s) =
      (p, .opensFunction (c :: t)) :: lexemesFrom (p.after (c :: t ++ [char '('])) s := by
  obtain ⟨hn, hu1, hu2⟩ := hc
  have hspace : isSpace c = false := isSpace_of_isNameStart hn
  have hi : startsIdentifier (c :: (t ++ char '(' :: s)) = true := startsIdentifier_of_isNameStart hn
  have hm : c ≠ char '-' := by
    rintro rfl
    exact absurd hn (by decide)
  have hname : readName (c :: t ++ char '(' :: s) = ⟨c :: t, (c :: t).length, char '(' :: s⟩ :=
    readName_append ht (by simp [show isNameChar (char '(') = false from by decide])
  have happ : c :: t ++ char '(' :: s = c :: (t ++ [char '(']) ++ s := by simp
  rw [happ, lexemesFrom_of_next (l := [.opensFunction (c :: t)])]
  · rfl
  · rw [List.append_assoc, List.singleton_append, nextLexemes, if_neg (by simp [hspace]),
      if_neg (by simp [startsRange_eq_false ⟨hu1, hu2⟩]), if_neg (fun h => hm h.1), if_pos hi,
      readIdentLike, ← List.cons_append, hname]
    dsimp only
    rw [readAfterName, if_neg (fun h => hu h.1)]
    simp [Read.widen, Nat.add_comm]

end ColorCensus.Css
