import ColorCensus.Proofs.Css.Gap

namespace ColorCensus.Css

open Text CodePoint

variable {c : CodePoint} {s t g body : Text} {q : CodePoint → Bool} {p : Position}

def Lexeme.isSpace : Lexeme → Bool
  | .token t => t.isSpace
  | _ => false

def Lexeme.isOther : Lexeme → Bool
  | .token t => !t.isSpace
  | .opens _ => true
  | _ => false

def BeginsOther (ls : List Lexeme) : Prop := ls.head?.any Lexeme.isOther = true

theorem BeginsOther.exists_cons {ls : List Lexeme} (h : BeginsOther ls) :
    ∃ l rest, ls = l :: rest ∧ l.isOther = true := by
  cases ls with
  | nil => cases h
  | cons l rest => exact ⟨l, rest, rfl, h⟩

theorem beginsOther_urlLexemes (v : UrlValue) : BeginsOther (urlLexemes v) := by
  unfold urlLexemes
  split
  · rfl
  · split <;> rfl

theorem beginsOther_stringLexemes (v : StringValue) : BeginsOther (stringLexemes v) := by
  unfold stringLexemes
  split <;> rfl

theorem beginsOther_readMark (h : ¬ (c = '/' ∧ s.head? = some (char '*'))) : BeginsOther (readMark c s).value := by
  unfold readMark
  split
  · rfl
  · split
    · rfl
    · split
      · exact beginsOther_stringLexemes _
      · split
        · next hc =>
          split
          · exact absurd ⟨hc, rfl⟩ h
          · rfl
        · iterate 3
            split
            · rfl
          rfl

theorem isSpace_readRange (s : Text) : (readRange s).value.isSpace = false := by
  unfold readRange readRangeEnd
  dsimp only
  split
  · split
    · split <;> rfl
    · rfl
  · rfl

theorem isSpace_readUnit (text s : Text) : (readUnit text s).value.isSpace = false := by
  unfold readUnit
  split
  · rfl
  · split <;> rfl

inductive Stand (c : CodePoint) (s : Text) : Prop where
  | space (hc : isSpace c = true)
  | comment (hc : c = '/') (hs : s.head? = some (char '*'))
  | call {name t : Text} {n : ℕ} (hi : startsIdentifier (c :: s) = true)
    (hn : readName (c :: s) = ⟨name, n, char '(' :: t⟩) (h : nextLexemes c s = ⟨[.opensFunction name], 1 + n, t⟩)
  | close {b : Bracket} (hc : Bracket.closed? c = some b) (h : nextLexemes c s = ⟨[.closes b], 1, s⟩)
  | other {l : Lexeme} {ls : List Lexeme} (h : (nextLexemes c s).value = l :: ls) (hl : l.isOther = true)

theorem Stand.of_beginsOther (h : BeginsOther (nextLexemes c s).value) : Stand c s := by
  obtain ⟨l, ls, hv, hl⟩ := h.exists_cons
  exact .other hv hl

theorem stand_of_startsIdentifier (hc : nextLexemes c s = readIdentLike (c :: s))
    (hi : startsIdentifier (c :: s) = true) : Stand c s := by
  rcases hname : readName (c :: s) with ⟨name, n, rest⟩
  have hnext : nextLexemes c s = (readAfterName name rest).widen n := by rw [hc, readIdentLike, hname]
  unfold readAfterName at hnext
  split at hnext
  · next t =>
    split at hnext
    · exact .of_beginsOther (by rw [hnext]; exact beginsOther_urlLexemes _)
    · exact .call hi hname hnext
  · exact .of_beginsOther (by rw [hnext]; rfl)

theorem stand (c : CodePoint) (s : Text) : Stand c s := by
  by_cases hspace : isSpace c = true
  · exact .space hspace
  by_cases hcomment : c = '/' ∧ s.head? = some (char '*')
  · exact .comment hcomment.1 hcomment.2
  have hnext := nextLexemes.eq_def c s
  rw [if_neg hspace] at hnext
  by_cases hrange : startsRange (c :: s) = true
  · rw [if_pos hrange] at hnext
    refine .of_beginsOther ?_
    rw [hnext]
    simp [BeginsOther, Read.map, Read.widen, Lexeme.isOther, isSpace_readRange]
  rw [if_neg hrange] at hnext
  by_cases harrow : c = '-' ∧ startsWith "->" s = true
  · rw [if_pos harrow] at hnext
    exact .of_beginsOther (by rw [hnext]; rfl)
  rw [if_neg harrow] at hnext
  by_cases hi : startsIdentifier (c :: s) = true
  · rw [if_pos hi] at hnext
    exact stand_of_startsIdentifier hnext hi
  rw [if_neg hi] at hnext
  split at hnext
  · refine .of_beginsOther ?_
    rw [hnext]
    simp [BeginsOther, Read.map, Read.widen, Lexeme.isOther, isSpace_readUnit]
  · split at hnext
    · exact .of_beginsOther (by rw [hnext]; rfl)
    · next hc => exact .close hc hnext
    · exact .of_beginsOther (by rw [hnext]; exact beginsOther_readMark hcomment)

theorem isGap_of_forall (h : ∀ c ∈ s, q c = true) : IsGap q s := by
  induction s with
  | nil => exact .nil
  | cons c s ih =>
    obtain ⟨hc, hs⟩ := List.forall_mem_cons.mp h
    exact .space hc (ih hs)

inductive IsLastGap (q : CodePoint → Bool) : Text → Prop where
  | ended {g : Text} (h : IsGap q g) : IsLastGap q g
  | unended {g body : Text} (h : IsGap q g) (hb : ¬ ofString "*/" <:+: body) : IsLastGap q (g ++ ("/*" ++ body))

theorem exists_commentEnd (h : ofString "*/" <:+: s) : ∃ body t, s = body ++ char '*' :: char '/' :: t ∧
    ¬ ofString "*/" <:+: body := by
  induction s with
  | nil => exact absurd h (by decide)
  | cons c s ih =>
    rcases commentEnd_infix_cons.mp h with ⟨rfl, hs⟩ | hs
    · obtain ⟨t, rfl⟩ := List.head?_eq_some_iff.mp hs
      exact ⟨[], t, rfl, by decide⟩
    · by_cases hc : c = '*' ∧ s.head? = some (char '/')
      · obtain ⟨rfl, hhead⟩ := hc
        obtain ⟨t, rfl⟩ := List.head?_eq_some_iff.mp hhead
        exact ⟨[], t, rfl, by decide⟩
      · obtain ⟨body, t, rfl, hb⟩ := ih hs
        refine ⟨c :: body, t, rfl, ?_⟩
        rw [commentEnd_infix_cons]
        rintro (⟨rfl, hhead⟩ | hb')
        · refine hc ⟨rfl, ?_⟩
          rw [List.head?_append, hhead]
          rfl
        · exact hb hb'

theorem skipComment_unended (hb : ¬ ofString "*/" <:+: body) : skipComment body = ⟨(), body.length, []⟩ := by
  induction body with
  | nil => rfl
  | cons c body ih =>
    rw [commentEnd_infix_cons, not_or] at hb
    rw [skipComment_cons hb.1, ih hb.2]
    rfl

theorem lexemesFrom_unended (hb : ¬ ofString "*/" <:+: body) : lexemesFrom p ("/*" ++ body) = [] := by
  have hnext : nextLexemes (char '/') (char '*' :: body) = ⟨[], body.length + 2, []⟩ := by
    rw [nextLexemes_mark (by decide) ⟨rfl, rfl⟩ rfl, readMark_comment, skipComment_unended hb]
    rfl
  have hcons : lexemesFrom p ("/*" ++ body) = _ := lexemesFrom_cons p (char '/') (char '*' :: body)
  rw [hcons, hnext]
  dsimp only
  rw [lexemesFrom_nil]
  rfl

def kinds (p : Position) (s : Text) : List Lexeme := (lexemesFrom p s).map Prod.snd

theorem kinds_cons (p : Position) (c : CodePoint) (s : Text) :
    ∃ q, kinds p (c :: s) = (nextLexemes c s).value ++ kinds q (nextLexemes c s).rest := by
  refine ⟨p.after ((c :: s).take (nextLexemes c s).width), ?_⟩
  rw [kinds, lexemesFrom_cons, List.map_append, List.map_map]
  exact congrArg (· ++ _) (List.map_id _)

inductive IsPeeled : Text → Prop where
  | nil : IsPeeled []
  | unended {body : Text} (hb : ¬ ofString "*/" <:+: body) : IsPeeled ("/*" ++ body)
  | cons {c : CodePoint} {s : Text} (hc : isSpace c = false) (hs : ¬ (c = '/' ∧ s.head? = some (char '*'))) :
    IsPeeled (c :: s)

theorem exists_lexeme (hc : isSpace c = false) (hs : ¬ (c = '/' ∧ s.head? = some (char '*'))) :
    ∃ l ls, (nextLexemes c s).value = l :: ls ∧ l.isSpace = false := by
  cases stand c s with
  | space h => exact absurd h (by simp [hc])
  | comment h h' => exact absurd ⟨h, h'⟩ hs
  | call _ _ h => exact ⟨_, _, by rw [h], rfl⟩
  | close _ h => exact ⟨_, _, by rw [h], rfl⟩
  | @other l ls h hl =>
    refine ⟨l, ls, h, ?_⟩
    cases l with
    | token t => simpa [Lexeme.isOther, Lexeme.isSpace] using hl
    | _ => rfl

theorem exists_peeled (s : Text) (p : Position) : ∃ g u q, s = g ++ u ∧ IsGap isSpace g ∧ IsPeeled u ∧
    (kinds p s).dropWhile Lexeme.isSpace = kinds q u := by
  -- on the length: a run of spaces, or a comment that has an end, is taken off at each step
  induction hn : s.length using Nat.strong_induction_on generalizing s p with
  | _ n ih =>
    subst hn
    cases s with
    | nil => exact ⟨[], [], p, rfl, .nil, .nil, by rw [kinds, lexemesFrom_nil]; rfl⟩
    | cons c s =>
      by_cases hc : isSpace c = true
      · obtain ⟨q, hq⟩ := kinds_cons p c s
        have hnext : nextLexemes c s = ⟨[.token (.space (c :: s.takeWhile isSpace))],
            (s.takeWhile isSpace).length + 1, s.dropWhile isSpace⟩ := by
          rw [nextLexemes, if_pos hc]
          rfl
        have hlength : (s.dropWhile isSpace).length < (c :: s).length :=
          Nat.lt_succ_of_le (List.length_dropWhile_le ..)
        obtain ⟨g, u, q', hs, hg, hu, hk⟩ := ih _ hlength (s.dropWhile isSpace) q rfl
        have hrun : IsGap isSpace (c :: s.takeWhile isSpace) :=
          .space hc (isGap_of_forall fun d hd => List.mem_takeWhile_imp hd)
        refine ⟨c :: s.takeWhile isSpace ++ g, u, q', ?_, hrun.append hg, hu, ?_⟩
        · rw [List.append_assoc, ← hs, List.cons_append, List.takeWhile_append_dropWhile]
        · rw [hq, hnext, ← hk]
          rfl
      by_cases hs : c = '/' ∧ s.head? = some (char '*')
      · obtain ⟨rfl, hhead⟩ := hs
        obtain ⟨s, rfl⟩ := List.head?_eq_some_iff.mp hhead
        by_cases hend : ofString "*/" <:+: s
        · obtain ⟨body, t, rfl, hb⟩ := exists_commentEnd hend
          obtain ⟨g, u, q, rfl, hg, hu, hk⟩ := ih t.length (by simp; omega) t (p.after ("/*" ++ body ++ "*/")) rfl
          refine ⟨"/*" ++ body ++ "*/" ++ g, u, q, by simp [ofString], .comment hb hg, hu, ?_⟩
          have happ : char '/' :: char '*' :: (body ++ char '*' :: char '/' :: (g ++ u)) =
              "/*" ++ body ++ "*/" ++ (g ++ u) := by simp [ofString]
          rw [happ, kinds, lexemesFrom_comment hb]
          exact hk
        · refine ⟨[], char '/' :: char '*' :: s, p, rfl, .nil, .unended hend, ?_⟩
          have hnone : lexemesFrom p (char '/' :: char '*' :: s) = [] := lexemesFrom_unended hend
          rw [kinds, hnone]
          rfl
      · have hc : isSpace c = false := by simpa using hc
        refine ⟨[], c :: s, p, rfl, .nil, .cons hc hs, ?_⟩
        obtain ⟨l, ls, hl, hspace⟩ := exists_lexeme hc hs
        obtain ⟨q, hq⟩ := kinds_cons p c s
        rw [hq, hl, List.cons_append, List.dropWhile_cons_of_neg (by simp [hspace])]

theorem kinds_nil (p : Position) : kinds p [] = [] := by rw [kinds, lexemesFrom_nil, List.map_nil]

theorem kinds_unended (hb : ¬ ofString "*/" <:+: body) (p : Position) : kinds p ("/*" ++ body) = [] := by
  rw [kinds, lexemesFrom_unended hb, List.map_nil]

theorem isLastGap_of_kinds (h : ∀ l ∈ kinds p s, l.isSpace = true) : IsLastGap isSpace s := by
  obtain ⟨g, u, q, rfl, hg, hu, hk⟩ := exists_peeled s p
  have hnone : kinds q u = [] := by rw [← hk, List.dropWhile_eq_nil_iff.mpr h]
  cases hu with
  | nil =>
    rw [List.append_nil]
    exact .ended hg
  | unended hb => exact .unended hg hb
  | @cons c s hc hs =>
    obtain ⟨l, ls, hl, -⟩ := exists_lexeme hc hs
    obtain ⟨q', hq⟩ := kinds_cons q c s
    rw [hq, hl] at hnone
    cases hnone

theorem exists_cons_of_kinds {l : Lexeme} {ls : List Lexeme} (h : (kinds p s).dropWhile Lexeme.isSpace = l :: ls) :
    ∃ g c u q, s = g ++ c :: u ∧ IsGap isSpace g ∧ l :: ls = (nextLexemes c u).value ++ kinds q (nextLexemes c u).rest ∧
      isSpace c = false ∧ ¬ (c = '/' ∧ u.head? = some (char '*')) := by
  obtain ⟨g, u, q, rfl, hg, hu, hk⟩ := exists_peeled s p
  rw [h] at hk
  cases hu with
  | nil =>
    rw [kinds_nil] at hk
    cases hk
  | unended hb =>
    rw [kinds_unended hb] at hk
    cases hk
  | @cons c u hc hs =>
    obtain ⟨q', hq⟩ := kinds_cons q c u
    exact ⟨g, c, u, q', rfl, hg, hk.trans hq, hc, hs⟩

theorem exists_name_of_kinds {name : Text} {ls : List Lexeme}
    (h : (kinds p s).dropWhile Lexeme.isSpace = .opensFunction name :: ls) : ∃ g u n t q, s = g ++ u ∧ IsGap isSpace g ∧
      startsIdentifier u = true ∧ readName u = ⟨name, n, char '(' :: t⟩ ∧ kinds q t = ls := by
  obtain ⟨g, c, u, q, rfl, hg, hk, hc, hs⟩ := exists_cons_of_kinds h
  cases stand c u with
  | space h => exact absurd h (by simp [hc])
  | comment h h' => exact absurd ⟨h, h'⟩ hs
  | call hi hn hnext =>
    rw [hnext] at hk
    obtain ⟨hname, hls⟩ := List.cons.inj hk
    obtain rfl := Lexeme.opensFunction.inj hname
    exact ⟨g, c :: u, _, _, q, rfl, hg, hi, hn, hls.symm⟩
  | close _ hnext =>
    rw [hnext] at hk
    cases (List.cons.inj hk).1
  | other hv hl =>
    rw [hv] at hk
    obtain rfl := (List.cons.inj hk).1
    cases hl

theorem exists_bracket_of_kinds {ls : List Lexeme} (h : (kinds p s).dropWhile Lexeme.isSpace = .closes .round :: ls) :
    ∃ g t q, s = g ++ char ')' :: t ∧ IsGap isSpace g ∧ kinds q t = ls := by
  obtain ⟨g, c, u, q, rfl, hg, hk, hc, hs⟩ := exists_cons_of_kinds h
  cases stand c u with
  | space h => exact absurd h (by simp [hc])
  | comment h h' => exact absurd ⟨h, h'⟩ hs
  | call _ _ hnext =>
    rw [hnext] at hk
    cases (List.cons.inj hk).1
  | close hb hnext =>
    rw [hnext] at hk
    obtain ⟨hbracket, hls⟩ := List.cons.inj hk
    obtain rfl := Lexeme.closes.inj hbracket
    obtain rfl : c = ')' := by
      unfold Bracket.closed? at hb
      split at hb
      · assumption
      · split at hb
        · cases hb
        · split at hb <;> cases hb
    exact ⟨g, u, q, rfl, hg, hls.symm⟩
  | other hv hl =>
    rw [hv] at hk
    obtain rfl := (List.cons.inj hk).1
    cases hl

end ColorCensus.Css
