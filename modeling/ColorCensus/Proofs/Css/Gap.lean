import ColorCensus.Proofs.Css.Composition
import ColorCensus.Proofs.Css.Reading
import ColorCensus.Proofs.Text.Strip

namespace ColorCensus.Css

open Text CodePoint

variable {c : CodePoint} {s t u g body : Text} {q : CodePoint → Bool} {p : Position}

def isWhite (c : CodePoint) : Bool := isSpace c || c == '\r' || c == '\x0c'

inductive IsGap (q : CodePoint → Bool) : Text → Prop where
  | nil : IsGap q []
  | space {c : CodePoint} {s : Text} (hc : q c = true) (hs : IsGap q s) : IsGap q (c :: s)
  | comment {body s : Text} (hb : ¬ ofString "*/" <:+: body) (hs : IsGap q s) :
    IsGap q ("/*" ++ body ++ "*/" ++ s)

theorem classes_of_isWhite (h : isWhite c = true) : isAscii c = true ∧ c.toLower = c ∧ Css.isSpace
    (if c = '\r' ∨ c = '\x0c' then '\n' else if c = '\x00' then '\ufffd' else c : CodePoint) = true := by
  simp only [isWhite, Css.isSpace, Bool.or_eq_true, beq_iff_eq, or_assoc] at h
  rcases h with rfl | rfl | rfl | rfl | rfl <;> decide

theorem commentEnd_infix_cons : ofString "*/" <:+: c :: s ↔
    (c = '*' ∧ s.head? = some (char '/')) ∨ ofString "*/" <:+: s := by
  have h : ofString "*/" = [char '*', char '/'] := rfl
  rw [List.infix_cons_iff, h, List.cons_prefix_cons]
  cases s with
  | nil => simp
  | cons d s => simp [List.cons_prefix_cons, eq_comm]

theorem commentEnd_infix_append (hs : ∀ c ∈ s, c ≠ '*') (h : ofString "*/" <:+: s ++ t) :
    ofString "*/" <:+: t := by
  induction s with
  | nil => exact h
  | cons c s ih =>
    obtain ⟨hc, hs⟩ := List.forall_mem_cons.mp hs
    rw [List.cons_append, commentEnd_infix_cons] at h
    exact ih hs (h.resolve_left fun hc' => hc hc'.1)

namespace IsGap

theorem append (hs : IsGap q s) (ht : IsGap q t) : IsGap q (s ++ t) := by
  induction hs with
  | nil => exact ht
  | space hc _ ih => exact .space hc ih
  | comment hb _ ih =>
    rw [List.append_assoc]
    exact .comment hb ih

theorem head (h : IsGap q g) (h0 : g ≠ []) : ∃ c, g.head? = some c ∧ (q c = true ∨ c = '/') := by
  cases h with
  | nil => exact absurd rfl h0
  | space hc => exact ⟨_, rfl, .inl hc⟩
  | comment => exact ⟨_, rfl, .inr rfl⟩

end IsGap

theorem exists_lower_cons (before s : Text) (c : CodePoint) :
    ∃ form, lowerAfter before (c :: s) = form ++ lowerAfter (c :: before) s ∧ form ≠ [] ∧
      ∀ d ∈ form, d = '*' ∨ d = '/' → form = [c] := by
  rw [lowerAfter]
  refine ⟨_, rfl, ?_⟩
  split
  · refine ⟨List.cons_ne_nil _ _, fun d hd hm => ?_⟩
    rw [List.mem_singleton.mp hd, sigma] at hm
    exact absurd hm (by split <;> decide)
  · refine ⟨lowerForm_ne_nil c, fun d hd hm => ?_⟩
    cases hc : isAscii c with
    | true =>
      rw [lowerForm_of_isAscii hc] at hd ⊢
      rw [List.mem_singleton.mp hd, toLower_eq_iff (by decide), toLower_eq_iff (by decide)] at hm
      rcases hm with rfl | rfl <;> rfl
    | false =>
      have hl := lowerForm_of_not_isAscii hc d hd
      rcases hm with rfl | rfl <;> exact absurd hl (by decide)

theorem exists_lower_body (before t : Text) : ∃ s',
    lowerAfter before (s ++ t) = s' ++ lowerAfter (s.reverse ++ before) t ∧
    (s'.head? = some (char '/') → s.head? = some (char '/')) ∧ (ofString "*/" <:+: s' → ofString "*/" <:+: s) := by
  induction s generalizing before with
  | nil => exact ⟨[], rfl, id, id⟩
  | cons c s ih =>
    obtain ⟨form, hform, h0, hmarks⟩ := exists_lower_cons before (s ++ t) c
    obtain ⟨s', hs, hhead, hend⟩ := ih (c :: before)
    refine ⟨form ++ s', ?_, fun h => ?_, fun h => ?_⟩
    · rw [List.cons_append, hform, hs]
      simp
    · rw [List.head?_append_of_ne_nil _ h0] at h
      rw [hmarks _ (List.mem_of_mem_head? h) (.inr rfl)] at h
      exact h
    · rw [commentEnd_infix_cons]
      by_cases hstar : char '*' ∈ form
      · have hc := hmarks _ hstar (.inl rfl)
        rw [hc, List.singleton_append, commentEnd_infix_cons] at h
        exact h.imp (fun h => ⟨h.1, hhead h.2⟩) hend
      · exact .inr (hend (commentEnd_infix_append (fun d hd he => hstar (he ▸ hd)) h))

theorem IsGap.exists_lower (h : IsGap isWhite g) (before t : Text) : ∃ g', IsGap isWhite g' ∧ (g' = [] → g = []) ∧
    lowerAfter before (g ++ t) = g' ++ lowerAfter (g.reverse ++ before) t := by
  induction h generalizing before with
  | nil => exact ⟨[], .nil, id, rfl⟩
  | @space c s hc hs ih =>
    obtain ⟨hascii, hsame, -⟩ := classes_of_isWhite hc
    obtain ⟨g', hg, -, hl⟩ := ih (c :: before)
    refine ⟨c :: g', .space hc hg, fun h0 => absurd h0 (List.cons_ne_nil c g'), ?_⟩
    have hcons : lowerAfter before ([c] ++ (s ++ t)) = [c].map CodePoint.toLower ++ lowerAfter (c :: before) (s ++ t) :=
      lowerAfter_append_of_isAscii (by simpa using hascii)
    rw [List.cons_append, ← List.singleton_append, hcons, hl, List.map_singleton, hsame]
    simp
  | @comment body s hb hs ih =>
    obtain ⟨g', hg, -, hl⟩ := ih ((ofString "*/").reverse ++ (body.reverse ++ ((ofString "/*").reverse ++ before)))
    obtain ⟨body', hbody, -, hend⟩ :=
      exists_lower_body (s := body) ((ofString "/*").reverse ++ before) ("*/" ++ (s ++ t))
    refine ⟨"/*" ++ body' ++ "*/" ++ g', .comment (fun hi => hb (hend hi)) hg, ?_, ?_⟩
    · exact fun h0 => absurd h0 (by simp [ofString])
    · simp only [List.append_assoc]
      rw [lowerAfter_append_of_isAscii (by decide), hbody, lowerAfter_append_of_isAscii (by decide), hl]
      simp [ofString, CodePoint.toLower]

theorem commentEnd_infix_clean : ((clean s).head? = some (char '/') → s.head? = some (char '/')) ∧
    (ofString "*/" <:+: clean s → ofString "*/" <:+: s) := by
  fun_induction clean s with
  | case1 => exact ⟨id, id⟩
  | case2 s ih =>
    refine ⟨fun h => absurd h (by simp), fun h => ?_⟩
    rw [commentEnd_infix_cons, commentEnd_infix_cons]
    exact .inr (.inr (ih.2 ((commentEnd_infix_cons.mp h).resolve_left fun h => absurd h.1 (by decide))))
  | case3 c s _ ih =>
    have hc {d : CodePoint} (hd : d = '*' ∨ d = '/')
        (h : (if c = '\r' ∨ c = '\x0c' then '\n' else if c = '\x00' then '\ufffd' else c : CodePoint) = d) : c = d := by
      split at h
      · subst h
        exact absurd hd (by decide)
      · split at h
        · subst h
          exact absurd hd (by decide)
        · exact h
    refine ⟨fun h => ?_, fun h => ?_⟩
    · exact congrArg some (hc (.inr rfl) (Option.some.inj h))
    · rw [commentEnd_infix_cons] at h ⊢
      exact h.imp (fun h => ⟨hc (.inl rfl) h.1, ih.1 h.2⟩) ih.2

theorem IsGap.clean (h : IsGap isWhite g) : IsGap Css.isSpace (clean g) ∧ (Css.clean g = [] → g = []) := by
  induction h with
  | nil => exact ⟨.nil, id⟩
  | @space c s hc hs ih =>
    by_cases hline : c = '\r' ∧ s.head? = some (char '\n')
    · obtain ⟨rfl, hs⟩ := hline
      obtain ⟨s, rfl⟩ := List.head?_eq_some_iff.mp hs
      have hn : Css.clean (char '\r' :: char '\n' :: s) = Css.clean (char '\n' :: s) := by
        rw [Css.clean, clean_cons fun h => absurd h.1 (by decide)]
        rfl
      exact ⟨hn ▸ ih.1, fun h0 => absurd (ih.2 (hn ▸ h0)) (List.cons_ne_nil _ s)⟩
    · have hspace : Css.isSpace (if c = '\r' ∨ c = '\x0c' then '\n' else if c = '\x00' then '\ufffd' else c : CodePoint) =
          true :=
        (classes_of_isWhite hc).2.2
      rw [clean_cons hline]
      exact ⟨.space hspace ih.1, fun h0 => absurd h0 (List.cons_ne_nil _ _)⟩
  | @comment body s hb hs ih =>
    have hopen : Css.clean (ofString "/*" ++ (body ++ (ofString "*/" ++ s))) =
        ofString "/*" ++ (Css.clean body ++ (ofString "*/" ++ Css.clean s)) := by
      rw [clean_append fun h => absurd h (by decide), clean_append fun _ => by simp [ofString],
        clean_append fun h => absurd h (by decide)]
      rfl
    simp only [List.append_assoc]
    rw [hopen]
    simp only [← List.append_assoc]
    exact ⟨.comment (fun h => hb (commentEnd_infix_clean.2 h)) ih.1, fun h0 => absurd h0 (by simp [ofString])⟩

theorem commentEnd_later (hb : ¬ ofString "*/" <:+: c :: body) (s : Text) :
    ¬ (c = '*' ∧ (body ++ char '*' :: char '/' :: s).head? = some (char '/')) ∧ ¬ ofString "*/" <:+: body := by
  rw [commentEnd_infix_cons, not_or] at hb
  refine ⟨?_, hb.2⟩
  rintro ⟨rfl, hhead⟩
  cases body with
  | nil => exact absurd hhead (by simp)
  | cons d body => exact hb.1 ⟨rfl, hhead⟩

theorem skipComment_append (hb : ¬ ofString "*/" <:+: body) (s : Text) :
    skipComment (body ++ char '*' :: char '/' :: s) = ⟨(), body.length + 2, s⟩ := by
  induction body with
  | nil => rfl
  | cons c body ih =>
    obtain ⟨hc, hbody⟩ := commentEnd_later hb s
    rw [List.cons_append, skipComment_cons hc, ih hbody]
    simp only [Read.widen, List.length_cons, Nat.add_right_comm]

theorem lexemesFrom_comment (hb : ¬ ofString "*/" <:+: body) (s : Text) :
    lexemesFrom p ("/*" ++ body ++ "*/" ++ s) = lexemesFrom (p.after ("/*" ++ body ++ "*/")) s := by
  have happ : "/*" ++ body ++ "*/" ++ s = char '/' :: (char '*' :: body ++ [char '*', char '/']) ++ s := by
    simp [ofString]
  have hnext : nextLexemes (char '/') (char '*' :: (body ++ char '*' :: char '/' :: s)) =
      ⟨[], body.length + 4, s⟩ := by
    rw [nextLexemes_mark (by decide) ⟨rfl, rfl⟩ rfl, readMark_comment, skipComment_append hb]
    rfl
  rw [happ, lexemesFrom_of_next (l := [])]
  · simp [ofString]
  · simpa using hnext

def Lexeme.ofToken (l : Position × Token) : Position × Lexeme := (l.1, .token l.2)

def Node.ofToken (l : Position × Token) : Node := .token l.1 l.2

theorem Assembly.run_tokens (ls : List (Position × Token)) (a : Assembly) :
    a.run (ls.map Lexeme.ofToken) = ⟨(ls.map Node.ofToken).reverse ++ a.nodes, a.frames⟩ := by
  induction ls generalizing a with
  | nil => rfl
  | cons l ls ih =>
    rw [List.map_cons, run_cons, ih]
    simp [step, add, Lexeme.ofToken, Node.ofToken]

theorem IsGap.exists_lexemes (h : IsGap Css.isSpace g) (ht : ∀ c ∈ t.head?, Css.isSpace c = false) (p : Position) :
    (∃ ls : List (Position × Token), (∀ l ∈ ls, l.2.isSpace = true) ∧
      lexemesFrom p (g ++ t) = ls.map Lexeme.ofToken ++ lexemesFrom (p.after g) t) ∧
    ∃ ls : List (Position × Token), (∀ l ∈ ls, l.2.isSpace = true) ∧
      lexemesFrom (p.after ((g ++ t).takeWhile Css.isSpace)) ((g ++ t).dropWhile Css.isSpace) =
        ls.map Lexeme.ofToken ++ lexemesFrom (p.after g) t := by
  induction h generalizing p with
  | nil =>
    have hrun : t.takeWhile Css.isSpace = [] ∧ t.dropWhile Css.isSpace = t := by
      cases t with
      | nil => exact ⟨rfl, rfl⟩
      | cons c t => simp [ht c rfl]
    rw [List.nil_append, hrun.1, hrun.2]
    exact ⟨⟨[], nofun, rfl⟩, [], nofun, rfl⟩
  | @space c s hc hs ih =>
    -- the first space takes all that stand behind it with it
    obtain ⟨-, ls, hls, hl⟩ := ih (p.after [c])
    rw [List.cons_append, List.takeWhile_cons_of_pos hc, List.dropWhile_cons_of_pos hc]
    refine ⟨⟨(p, .space (c :: (s ++ t).takeWhile Css.isSpace)) :: ls, ?_, ?_⟩, ls, hls, hl⟩
    · exact List.forall_mem_cons.mpr ⟨rfl, hls⟩
    · have hnext : nextLexemes c (s ++ t) = ⟨[.token (.space (c :: (s ++ t).takeWhile Css.isSpace))],
          ((s ++ t).takeWhile Css.isSpace).length + 1, (s ++ t).dropWhile Css.isSpace⟩ := by
        rw [nextLexemes, if_pos hc]
        rfl
      have hcut := lexemesFrom_of_next (p := p) (t := (s ++ t).takeWhile Css.isSpace)
        (s := (s ++ t).dropWhile Css.isSpace) (c := c) (by rw [List.takeWhile_append_dropWhile]; exact hnext)
      rw [List.cons_append, List.takeWhile_append_dropWhile] at hcut
      rw [hcut]
      exact congrArg _ hl
  | @comment body s hb hs ih =>
    have hfirst : ∃ ls : List (Position × Token), (∀ l ∈ ls, l.2.isSpace = true) ∧
        lexemesFrom p ("/*" ++ body ++ "*/" ++ s ++ t) =
          ls.map Lexeme.ofToken ++ lexemesFrom (p.after ("/*" ++ body ++ "*/" ++ s)) t := by
      have hp : p.after ("/*" ++ body ++ "*/" ++ s) = (p.after ("/*" ++ body ++ "*/")).after s :=
        Position.after_append ..
      rw [hp, List.append_assoc, lexemesFrom_comment hb]
      exact (ih _).1
    exact ⟨hfirst, hfirst⟩

end ColorCensus.Css
