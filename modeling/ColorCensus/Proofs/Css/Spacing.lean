import ColorCensus.Proofs.Css.Gap

namespace ColorCensus.Css

open Text Decimal CodePoint

variable {c : CodePoint} {s t w g : Text} {ws : List Text} {p : Position} {n : ℤ}

def CutsInto (p : Position) (s t : Text) (tokens : List Token) : Prop :=
  ∃ ls : List (Position × Token), (ls.map Prod.snd).filter (fun token => !token.isSpace) = tokens ∧
    lexemesFrom p (s ++ t) = ls.map Lexeme.ofToken ++ lexemesFrom (p.after s) t

theorem CutsInto.append {u : Text} {xs ys : List Token} (hs : CutsInto p s (t ++ u) xs)
    (ht : CutsInto (p.after s) t u ys) :
    CutsInto p (s ++ t) u (xs ++ ys) := by
  obtain ⟨ls, rfl, hls⟩ := hs
  obtain ⟨ms, rfl, hms⟩ := ht
  refine ⟨ls ++ ms, by rw [List.map_append, List.filter_append], ?_⟩
  rw [List.append_assoc, hls, hms, Position.after_append, List.map_append, List.append_assoc]

theorem IsGap.cutsInto (h : IsGap Css.isSpace g) (ht : ∀ c ∈ t.head?, Css.isSpace c = false) : CutsInto p g t [] := by
  obtain ⟨⟨ls, hls, hlex⟩, -⟩ := h.exists_lexemes ht p
  refine ⟨ls, ?_, hlex⟩
  simpa using fun token p hl => hls (p, token) hl

theorem literalLength_sign (hc : c = '+' ∨ c = '-') (hs : signLength s = 0) :
    literalLength (c :: s) = if literalLength s = 0 then 0 else literalLength s + 1 := by
  have hsign : signLength (c :: s) = 1 := if_pos hc
  simp only [literalLength, hsign, hs, List.drop_succ_cons, List.drop_zero, Nat.zero_add]
  split
  · rfl
  · next hm =>
    rw [Nat.add_comm 1 (mantissaLength s), List.drop_succ_cons, if_neg (by omega)]
    omega

theorem lexemesFrom_signed (hc : c = '+' ∨ c = '-') (h : Numeral t) (hs : EndsNumber s) :
    lexemesFrom p (c :: t ++ s) = (p, .token (.number (c :: t))) :: lexemesFrom (p.after (c :: t)) s := by
  have hl := h.literalLength hs
  obtain ⟨d, t, rfl, hd⟩ := h.exists_cons
  obtain ⟨-, hname, -, -, hminus, hescape⟩ := classes_of_isDigit hd
  have hlength : literalLength (c :: (d :: t ++ s)) = (d :: t).length + 1 := by
    have hsign : signLength (d :: t ++ s) = 0 := signLength_of_isDigit hd
    rw [literalLength_sign hc hsign, hl, if_neg (by simp)]
  have hi : startsIdentifier (c :: (d :: t ++ s)) = false := by
    rcases hc with rfl | rfl
    · exact startsIdentifier_eq_false (by decide) (by decide) (by decide)
    · rw [startsIdentifier_minus, List.cons_append, startsEscape_eq_false hescape]
      simp [hname, hminus]
  have hclasses : isSpace c = false ∧ c ≠ char 'u' ∧ c ≠ char 'U' := by
    rcases hc with rfl | rfl <;> decide
  have harrow : ¬ (c = '-' ∧ startsWith "->" (d :: t ++ s) = true) := by
    rintro ⟨-, h⟩
    obtain ⟨r, hr⟩ := startsWith_iff.mp h
    exact hminus (List.cons.inj hr).1
  refine lexemesFrom_of_next (l := [.token (.number (c :: d :: t))]) ?_
  rw [nextLexemes, if_neg (by simp [hclasses.1]), if_neg (by simp [startsRange_eq_false hclasses.2]), if_neg harrow,
    if_neg (by rw [hi]; exact Bool.false_ne_true), hlength]
  dsimp only
  rw [List.take_left, List.drop_left, hs.readUnit]
  simp [Read.map, Read.widen, Nat.add_comm]

theorem lexemesFrom_full : lexemesFrom p ("100%" ++ s) =
    (p, .token (.percentage "100")) :: lexemesFrom (p.after "100%") s := by
  have hl : literalLength (char '1' :: (ofString "00%" ++ s)) = 3 := rfl
  have hr : startsRange (char '1' :: (ofString "00%" ++ s)) = false := rfl
  have hi : startsIdentifier (char '1' :: (ofString "00%" ++ s)) = false := rfl
  have hp : startsIdentifier (char '%' :: s) = false := rfl
  refine lexemesFrom_of_next (c := '1') (t := "00%") (l := [.token (.percentage "100")]) ?_
  rw [nextLexemes, if_neg (by decide), if_neg (by rw [hr]; exact Bool.false_ne_true), if_neg (by simp),
    if_neg (by rw [hi]; exact Bool.false_ne_true), hl]
  exact congrArg (fun r : Read Token => (r.widen 3).map fun t => [Lexeme.token t]) (readUnit_percent "100" hp)

theorem lexemesFrom_slash (h : s.head? ≠ some (char '*')) : lexemesFrom p (char '/' :: s) =
    (p, .token (.delimiter [char '/'])) :: lexemesFrom (p.after [char '/']) s := by
  refine lexemesFrom_of_next (t := []) (l := [.token (.delimiter [char '/'])]) ?_
  rw [List.nil_append, nextLexemes_mark (by decide) ⟨rfl, rfl⟩ rfl, readMark_slash h]
  rfl

inductive IsNumeral : Text → ℤ → Prop where
  | unsigned {digits : Text} (h0 : digits ≠ []) (hd : ∀ c ∈ digits, c.isDigit = true) :
    IsNumeral digits (ofDecimal digits)
  | positive {digits : Text} (h0 : digits ≠ []) (hd : ∀ c ∈ digits, c.isDigit = true) :
    IsNumeral ('+' :: digits) (ofDecimal digits)
  | negative {digits : Text} (h0 : digits ≠ []) (hd : ∀ c ∈ digits, c.isDigit = true) :
    IsNumeral ('-' :: digits) (-ofDecimal digits)

inductive IsWord : Text → Token → Prop where
  | numeral {w : Text} {n : ℤ} (h : IsNumeral w n) : IsWord w (.number w)
  | full : IsWord "100%" (.percentage "100")
  | comma : IsWord "," (.delimiter ",")
  | slash : IsWord "/" (.delimiter "/")

def wordChars : Text := "0123456789+-,/%"

theorem classes_of_mem_wordChars : ∀ c ∈ wordChars, isAscii c = true ∧ c.toLower = c ∧
    (c ≠ '\r' ∧ c ≠ '\x0c' ∧ c ≠ '\x00') ∧ c ≠ '\n' ∧ c ≠ '*' ∧ Css.isSpace c = false := by
  decide

theorem mem_wordChars_of_isDigit (h : c.isDigit = true) : c ∈ wordChars := by
  obtain ⟨n, rfl⟩ := exists_of_isDigit h
  clear h
  revert n
  decide

theorem IsNumeral.exists_digit (h : IsNumeral w n) : ∃ c ∈ w, c.isDigit = true := by
  cases h with
  | unsigned h0 hd => exact ⟨_, List.head_mem h0, hd _ (List.head_mem h0)⟩
  | positive h0 hd => exact ⟨_, List.mem_cons_of_mem _ (List.head_mem h0), hd _ (List.head_mem h0)⟩
  | negative h0 hd => exact ⟨_, List.mem_cons_of_mem _ (List.head_mem h0), hd _ (List.head_mem h0)⟩

theorem IsNumeral.mem_wordChars (h : IsNumeral w n) : ∀ c ∈ w, c ∈ wordChars := by
  cases h with
  | unsigned _ hd => exact fun c hc => mem_wordChars_of_isDigit (hd c hc)
  | positive _ hd => exact List.forall_mem_cons.mpr ⟨by decide, fun c hc => mem_wordChars_of_isDigit (hd c hc)⟩
  | negative _ hd => exact List.forall_mem_cons.mpr ⟨by decide, fun c hc => mem_wordChars_of_isDigit (hd c hc)⟩

def holdsDigit (w : Text) : Bool := w.any CodePoint.isDigit

namespace IsWord

variable {token : Token}

theorem mem_wordChars (h : IsWord w token) : ∀ c ∈ w, c ∈ wordChars := by
  cases h with
  | numeral h => exact h.mem_wordChars
  | _ => decide

theorem ne_nil (h : IsWord w token) : w ≠ [] := by
  cases h with
  | numeral h => exact List.ne_nil_of_mem h.exists_digit.choose_spec.1
  | _ => decide

theorem isSpace (h : IsWord w token) : token.isSpace = false := by
  cases h <;> rfl

theorem head?_of_holdsDigit (h : IsWord w token) (hw : holdsDigit w = false) :
    w.head? = some (char ',') ∨ w.head? = some (char '/') := by
  cases h with
  | numeral h =>
    obtain ⟨c, hc, hd⟩ := h.exists_digit
    rw [holdsDigit, List.any_eq_false] at hw
    exact absurd hd (hw c hc)
  | full => exact absurd hw (by decide)
  | comma => exact .inl rfl
  | slash => exact .inr rfl

end IsWord

def Follows (w s : Text) : Prop :=
  ∀ c ∈ s.head?, c ≠ '*' ∧ (holdsDigit w = true → c ∈ ([' ', '\n', '\t', '/', ',', ')'] : Text))

theorem Follows.endsNumber (h : Follows w s) (hw : holdsDigit w = true) : EndsNumber s := fun c hc =>
  (show ∀ c ∈ ([' ', '\n', '\t', '/', ',', ')'] : Text),
    isNameChar c = false ∧ c ≠ char '\\' ∧ c ≠ char '.' ∧ c ≠ char '%' from by decide) c ((h c hc).2 hw)

theorem IsWord.lexemesFrom {token : Token} (h : IsWord w token) (hs : Follows w s) :
    lexemesFrom p (w ++ s) = (p, .token token) :: lexemesFrom (p.after w) s := by
  cases h with
  | numeral h =>
    obtain ⟨c, hc, hd⟩ := h.exists_digit
    have hend := hs.endsNumber (List.any_eq_true.mpr ⟨c, hc, hd⟩)
    have hnumeral {digits : Text} (h0 : digits ≠ []) (hd : ∀ c ∈ digits, c.isDigit = true) : Numeral digits := by
      obtain ⟨c, digits, rfl⟩ := List.exists_cons_of_ne_nil h0
      exact .whole c digits hd
    cases h with
    | unsigned h0 hd => exact lexemesFrom_numeral (hnumeral h0 hd) hend
    | positive h0 hd => exact lexemesFrom_signed (.inl rfl) (hnumeral h0 hd) hend
    | negative h0 hd => exact lexemesFrom_signed (.inr rfl) (hnumeral h0 hd) hend
  | full => exact lexemesFrom_full
  | comma => exact lexemesFrom_comma
  | slash => exact lexemesFrom_slash fun h => (hs _ h).1 rfl

inductive Spaced (q : CodePoint → Bool) : List Text → Text → Prop where
  | nil : Spaced q [] []
  | cons {w g t : Text} {ws : List Text} (hg : IsGap q g) (ht : Spaced q ws t)
    (h : ∀ v ∈ ws.head?, holdsDigit w = true → holdsDigit v = true → g ≠ []) : Spaced q (w :: ws) (w ++ g ++ t)

namespace Spaced

variable {tokens : List Token} {q : CodePoint → Bool}

theorem exists_lower (h : Spaced isWhite ws t) (hw : List.Forall₂ IsWord ws tokens) (before u : Text) :
    ∃ t', Spaced isWhite ws t' ∧ lowerAfter before (t ++ u) = t' ++ lowerAfter (t.reverse ++ before) u := by
  induction h generalizing before tokens with
  | nil => exact ⟨[], .nil, rfl⟩
  | @cons w g t ws hg ht hapart ih =>
    obtain _ | ⟨hword, hws⟩ := hw
    have hclasses (c : CodePoint) (hc : c ∈ w) := classes_of_mem_wordChars c (hword.mem_wordChars c hc)
    have hlower : w.map CodePoint.toLower = w :=
      (List.map_congr_left fun c hc => (hclasses c hc).2.1).trans (List.map_id _)
    obtain ⟨g', hg', hg0, hgap⟩ := hg.exists_lower (w.reverse ++ before) (t ++ u)
    obtain ⟨t', ht', hrest⟩ := ih hws (g.reverse ++ (w.reverse ++ before))
    refine ⟨w ++ g' ++ t', .cons hg' ht' fun v hv hd hd' h0 => hapart v hv hd hd' (hg0 h0), ?_⟩
    simp only [List.append_assoc]
    rw [lowerAfter_append_of_isAscii fun c hc => (hclasses c hc).1, hlower, hgap, hrest]
    simp

theorem head? (h : Spaced q ws t) (hw : List.Forall₂ IsWord ws tokens) :
    ∀ c ∈ t.head?, ∃ w token, ws.head? = some w ∧ c ∈ w.head? ∧ IsWord w token := by
  cases h with
  | nil => exact nofun
  | @cons w g t ws =>
    obtain _ | ⟨hword, -⟩ := hw
    intro c hc
    rw [List.append_assoc, List.head?_append_of_ne_nil _ hword.ne_nil] at hc
    exact ⟨w, _, rfl, hc, hword⟩

theorem head?_mem_wordChars (h : Spaced q ws t) (hw : List.Forall₂ IsWord ws tokens) :
    ∀ c ∈ t.head?, c ∈ wordChars := by
  intro c hc
  obtain ⟨w, token, -, hcw, hword⟩ := h.head? hw c hc
  exact hword.mem_wordChars c (List.mem_of_mem_head? hcw)

theorem clean (h : Spaced isWhite ws t) (hw : List.Forall₂ IsWord ws tokens) : Spaced Css.isSpace ws (clean t) := by
  induction h generalizing tokens with
  | nil => exact .nil
  | @cons w g t ws hg ht hapart ih =>
    obtain _ | ⟨hword, hws⟩ := hw
    have hclasses (c : CodePoint) (hc : c ∈ w) := classes_of_mem_wordChars c (hword.mem_wordChars c hc)
    have hlast : w.getLast? ≠ some (char '\r') := fun hl => (hclasses _ (List.mem_of_getLast? hl)).2.2.1.1 rfl
    have hhead : t.head? ≠ some (char '\n') := fun hh =>
      (classes_of_mem_wordChars _ (ht.head?_mem_wordChars hws _ hh)).2.2.2.1 rfl
    rw [List.append_assoc, clean_append fun hl => absurd hl hlast, clean_append fun _ => hhead,
      clean_of_forall fun c hc => (hclasses c hc).2.2.1, ← List.append_assoc]
    exact .cons hg.clean.1 (ih hws) fun v hv hd hd' h0 => hapart v hv hd hd' (hg.clean.2 h0)

theorem follows (hg : IsGap Css.isSpace g) (ht : Spaced Css.isSpace ws t) (hw : List.Forall₂ IsWord ws tokens)
    (hapart : ∀ v ∈ ws.head?, holdsDigit w = true → holdsDigit v = true → g ≠ []) (u : Text) :
    Follows w (g ++ (t ++ char ')' :: u)) := by
  intro c hc
  -- what follows is the next word only where there is no gap, and then it is a mark
  by_cases h0 : g = []
  · cases t with
    | nil =>
      obtain rfl : char ')' = c := by simpa [h0] using hc
      exact ⟨by decide, fun _ => by decide⟩
    | cons d t =>
      obtain rfl : d = c := by simpa [h0] using hc
      obtain ⟨v, token, hv, hd, hword⟩ := ht.head? hw d rfl
      refine ⟨(classes_of_mem_wordChars d (ht.head?_mem_wordChars hw d rfl)).2.2.2.2.1, fun hdigit => ?_⟩
      have hmark : holdsDigit v = false := by
        by_contra hne
        exact hapart v hv hdigit (by simpa using hne) h0
      rw [Option.mem_def] at hd
      rcases hword.head?_of_holdsDigit hmark with hh | hh
      · obtain rfl := Option.some.inj (hd.symm.trans hh)
        decide
      · obtain rfl := Option.some.inj (hd.symm.trans hh)
        decide
  · obtain ⟨d, hd, hcase⟩ := hg.head h0
    rw [List.head?_append_of_ne_nil _ h0, hd] at hc
    obtain rfl := Option.some.inj hc
    rcases hcase with hspace | rfl
    · have hmem : d ∈ ([' ', '\n', '\t'] : Text) := by simpa [Css.isSpace, or_assoc] using hspace
      exact (show ∀ d ∈ ([' ', '\n', '\t'] : Text), d ≠ '*' ∧
        (holdsDigit w = true → d ∈ ([' ', '\n', '\t', '/', ',', ')'] : Text)) from by simp) d hmem
    · exact ⟨by decide, fun _ => by decide⟩

theorem head?_isSpace (h : Spaced q ws t) (hw : List.Forall₂ IsWord ws tokens) (u : Text) :
    ∀ c ∈ (t ++ char ')' :: u).head?, Css.isSpace c = false := by
  cases t with
  | nil =>
    rintro c ⟨⟩
    rfl
  | cons d t => exact fun c hc => (classes_of_mem_wordChars c (h.head?_mem_wordChars hw c hc)).2.2.2.2.2

theorem cutsInto (h : Spaced Css.isSpace ws t) (hw : List.Forall₂ IsWord ws tokens) (p : Position) (u : Text) :
    CutsInto p t (char ')' :: u) tokens := by
  induction h generalizing p tokens with
  | nil =>
    cases hw
    exact ⟨[], rfl, rfl⟩
  | @cons w g t ws hg ht hapart ih =>
    obtain _ | @⟨_, token, _, tokens, hword, hws⟩ := hw
    have hfirst : CutsInto p w (g ++ (t ++ char ')' :: u)) [token] :=
      ⟨[(p, token)], by simp [hword.isSpace], hword.lexemesFrom (follows hg ht hws hapart u)⟩
    have hgap : CutsInto (p.after w) g (t ++ char ')' :: u) [] := hg.cutsInto (ht.head?_isSpace hws u)
    rw [List.append_assoc]
    exact CutsInto.append (by rwa [List.append_assoc]) (hgap.append (ih hws _))

end Spaced

end ColorCensus.Css
