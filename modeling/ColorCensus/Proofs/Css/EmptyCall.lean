import ColorCensus.Proofs.Css.Flattening
import ColorCensus.Proofs.Css.Peeling

namespace ColorCensus.Css

open Text CodePoint

variable {c : CodePoint} {s t g name : Text} {n : ℕ} {p : Position} {ns : List Node}

inductive IsEmptyTail : Text → Prop where
  | closed {g t : Text} (hg : IsGap isSpace g) (ht : IsLastGap isSpace t) : IsEmptyTail (g ++ char ')' :: t)
  | unclosed {g : Text} (hg : IsLastGap isSpace g) : IsEmptyTail g

inductive IsEmptyCall (name : Text) : Text → Prop where
  | call {g s t : Text} {n : ℕ} (hg : IsGap isSpace g) (hi : startsIdentifier s = true)
    (hn : readName s = ⟨name, n, char '(' :: t⟩) (ht : IsEmptyTail t) : IsEmptyCall name (g ++ s)

theorem IsEmptyCall.mem (h : IsEmptyCall name s) : char '(' ∈ s := by
  cases h with
  | @call g s t n _ _ hn _ =>
    have hcut := (readName_local s).cut
    rw [hn] at hcut
    refine List.mem_append_right g (List.mem_of_mem_drop (i := n) ?_)
    rw [hcut]
    exact List.mem_cons_self

theorem forall_isSpace_listFlatten (h : ∀ m ∈ ns, m.isSpace = true) : ∀ l ∈ Node.listFlatten ns, l.isSpace = true := by
  induction ns with
  | nil => nofun
  | cons m ns ih =>
    obtain ⟨hm, hns⟩ := List.forall_mem_cons.mp h
    rw [Node.listFlatten]
    refine List.forall_mem_append.mpr ⟨?_, ih hns⟩
    cases m with
    | token p t => exact List.forall_mem_singleton.mpr hm
    | function p name arguments closed => cases hm
    | block p b content closed => cases hm

theorem eq_of_forall₂_stands {ls ms : List Lexeme} (h : List.Forall₂ Stands ls ms)
    (hm : ∀ b, Lexeme.token (.fault (.unmatched b)) ∉ ms) : ls = ms := by
  induction h with
  | nil => rfl
  | cons hl _ ih =>
    rw [ih fun b hb => hm b (List.mem_cons_of_mem _ hb)]
    cases hl with
    | same l => rfl
    | unmatched b => exact absurd List.mem_cons_self (hm b)

theorem Node.filter_not_isSpace_eq_nil_iff : ns.filter (fun m => !m.isSpace) = [] ↔ ∀ m ∈ ns, m.isSpace = true := by
  simp [List.filter_eq_nil_iff]

section

variable {arguments : List Node} {closed : Bool}

theorem exists_kinds_of_read
    (hread : (Node.read s).filter (fun m => !m.isSpace) = [.function p name arguments closed])
    (harguments : ∀ m ∈ arguments, m.isSpace = true) : ∃ before inside after : List Lexeme,
      (∀ l ∈ before, l.isSpace = true) ∧ (∀ l ∈ inside, l.isSpace = true) ∧ (∀ l ∈ after, l.isSpace = true) ∧
        kinds .start (clean s) = before ++ .opensFunction name :: (inside ++ (closing .round closed ++ after)) := by
  obtain ⟨before, after, hnodes, hbefore, -, hafter⟩ := List.filter_eq_cons_iff.mp hread
  have hbefore : ∀ l ∈ Node.listFlatten before, l.isSpace = true :=
    forall_isSpace_listFlatten (by simpa using hbefore)
  have hinside := forall_isSpace_listFlatten harguments
  have hafter := forall_isSpace_listFlatten (Node.filter_not_isSpace_eq_nil_iff.mp hafter)
  have hflat : Node.listFlatten (Node.read s) = Node.listFlatten before ++ .opensFunction name ::
      (Node.listFlatten arguments ++ (closing .round closed ++ Node.listFlatten after)) := by
    rw [hnodes, Node.listFlatten_append, Node.listFlatten, Node.flatten]
    simp
  refine ⟨_, _, _, hbefore, hinside, hafter, ?_⟩
  rw [← hflat]
  refine eq_of_forall₂_stands (Node.stands_ofLexemes (lexemes s)) fun b hb => ?_
  have hspace : ∀ l ∈ Node.listFlatten before ++ Node.listFlatten arguments ++ Node.listFlatten after,
      l.isSpace = true :=
    List.forall_mem_append.mpr ⟨List.forall_mem_append.mpr ⟨hbefore, hinside⟩, hafter⟩
  have hmem : Lexeme.token (.fault (.unmatched b)) ∈
      Node.listFlatten before ++ Node.listFlatten arguments ++ Node.listFlatten after := by
    change _ ∈ Node.listFlatten (Node.read s) at hb
    rw [hflat] at hb
    cases closed <;> simpa [closing, or_assoc] using hb
  cases hspace _ hmem

theorem isEmptyCall_of_kinds {before inside after : List Lexeme} (hbefore : ∀ l ∈ before, l.isSpace = true)
    (hinside : ∀ l ∈ inside, l.isSpace = true) (hafter : ∀ l ∈ after, l.isSpace = true)
    (hkinds : kinds p s = before ++ .opensFunction name :: (inside ++ (closing .round closed ++ after))) :
    IsEmptyCall name s := by
  have hopen : (kinds p s).dropWhile Lexeme.isSpace =
      .opensFunction name :: (inside ++ (closing .round closed ++ after)) := by
    rw [hkinds, List.dropWhile_append_of_pos hbefore]
    rfl
  obtain ⟨g, u, n, t, q, rfl, hg, hi, hn, hrest⟩ := exists_name_of_kinds hopen
  refine .call hg hi hn ?_
  cases closed with
  | true =>
    have hclose : (kinds q t).dropWhile Lexeme.isSpace = .closes .round :: after := by
      rw [hrest, List.dropWhile_append_of_pos hinside]
      rfl
    obtain ⟨a, b, q', rfl, ha, hb⟩ := exists_bracket_of_kinds hclose
    refine .closed ha (isLastGap_of_kinds (p := q') ?_)
    rw [hb]
    exact hafter
  | false =>
    refine .unclosed (isLastGap_of_kinds (p := q) ?_)
    rw [hrest]
    exact List.forall_mem_append.mpr ⟨hinside, hafter⟩

end

theorem IsLastGap.exists_lexemes (h : IsLastGap isSpace g) (p : Position) : ∃ ls : List (Position × Token),
    (∀ l ∈ ls, l.2.isSpace = true) ∧ lexemesFrom p g = ls.map Lexeme.ofToken := by
  cases h with
  | ended h =>
    obtain ⟨⟨ls, hls, hl⟩, -⟩ := h.exists_lexemes (t := []) nofun p
    rw [List.append_nil, lexemesFrom_nil, List.append_nil] at hl
    exact ⟨ls, hls, hl⟩
  | @unended g body h hb =>
    obtain ⟨⟨ls, hls, hl⟩, -⟩ := h.exists_lexemes (t := "/*" ++ body) (by simp [ofString, isSpace]) p
    rw [lexemesFrom_unended hb, List.append_nil] at hl
    exact ⟨ls, hls, hl⟩

theorem isSpace_of_startsIdentifier (h : startsIdentifier (c :: s) = true) : isSpace c = false := by
  cases hs : isSpace c with
  | false => rfl
  | true =>
    simp only [isSpace, Bool.or_eq_true, beq_iff_eq] at hs
    rcases hs with (rfl | rfl) | rfl <;>
      exact absurd h (by rw [startsIdentifier_eq_false (by decide) (by decide) (by decide)]; decide)

theorem nextLexemes_of_readName (hi : startsIdentifier (c :: s) = true)
    (hn : readName (c :: s) = ⟨name, n, char '(' :: t⟩) (hu : asciiLower name ≠ "url") :
    nextLexemes c s = ⟨[.opensFunction name], 1 + n, t⟩ := by
  -- a range and the end of a comment stop the name as well, but at another character
  have hstop {w r : Text} {e : CodePoint} (hw : ∀ d ∈ w, isNameChar d = true)
      (he : isNameChar e = false ∧ e ≠ char '\\') (hp : e ≠ char '(') : c :: s ≠ w ++ e :: r := by
    intro h
    rw [h, readName_append hw (by simpa using he)] at hn
    exact hp (List.cons.inj (Read.mk.inj hn).2.2).1
  have hrange : ¬ startsRange (c :: s) = true := by
    intro h
    unfold startsRange at h
    split at h
    · next d e r heq =>
      simp only [Bool.and_eq_true, Bool.or_eq_true, beq_iff_eq] at h
      rcases h.1 with rfl | rfl
      · exact hstop (w := [char 'u']) (by decide) (by decide) (by decide) heq
      · exact hstop (w := [char 'U']) (by decide) (by decide) (by decide) heq
    · cases h
  have harrow : ¬ (c = '-' ∧ startsWith "->" s = true) := by
    rintro ⟨rfl, h⟩
    obtain ⟨r, rfl⟩ := List.isPrefixOf_iff_prefix.mp h
    exact hstop (w := "--") (by decide) (by decide) (by decide) rfl
  rw [nextLexemes, if_neg (by simp [isSpace_of_startsIdentifier hi]), if_neg hrange, if_neg harrow, if_pos hi,
    readIdentLike, hn]
  dsimp only
  rw [readAfterName, if_neg fun h => hu h.1]
  rfl

theorem Node.forall_isSpace_ofToken {ls : List (Position × Token)} (hls : ∀ l ∈ ls, l.2.isSpace = true) :
    ∀ m ∈ ls.map Node.ofToken, m.isSpace = true := by
  intro m hm
  obtain ⟨l, hl, rfl⟩ := List.mem_map.mp hm
  exact hls l hl

theorem Assembly.finish_spaces (ls : List (Position × Token)) (before : List Node) :
    (Assembly.mk before [] |>.run (ls.map Lexeme.ofToken)).finish = before.reverse ++ ls.map Node.ofToken := by
  rw [run_tokens, finish, closeAll]
  simp

theorem IsEmptyTail.exists_function (h : IsEmptyTail t) (name : Text) (p : Position) :
    ∃ arguments after closed, (∀ m ∈ arguments, m.isSpace = true) ∧ (∀ m ∈ after, m.isSpace = true) ∧
      ∀ q before, ((Assembly.mk [] [⟨q, .function name, before⟩]).run (lexemesFrom p t)).finish =
        before.reverse ++ Node.function q name arguments closed :: after := by
  cases h with
  | @closed g t hg ht =>
    obtain ⟨⟨ls, hls, hl⟩, -⟩ := hg.exists_lexemes (t := char ')' :: t) (by simp [isSpace]) p
    obtain ⟨ms, hms, hm⟩ := ht.exists_lexemes ((p.after g).after [char ')'])
    refine ⟨ls.map Node.ofToken, ms.map Node.ofToken, true, Node.forall_isSpace_ofToken hls,
      Node.forall_isSpace_ofToken hms, fun q before => ?_⟩
    rw [hl, lexemesFrom_close, hm, Assembly.run_append, Assembly.run_tokens, Assembly.run_cons]
    have hclose : (Assembly.mk ((ls.map Node.ofToken).reverse ++ []) [⟨q, .function name, before⟩]).step
        (p.after g, .closes .round) = ⟨.function q name (ls.map Node.ofToken) true :: before, []⟩ := by
      simp [Assembly.step, Assembly.closeBracket, Opener.bracket, Opener.node]
    rw [hclose, Assembly.finish_spaces]
    simp
  | unclosed ht =>
    obtain ⟨ls, hls, hl⟩ := ht.exists_lexemes p
    refine ⟨ls.map Node.ofToken, [], false, Node.forall_isSpace_ofToken hls, by simp, fun q before => ?_⟩
    rw [hl, Assembly.run_tokens]
    simp [Assembly.finish, Assembly.closeAll, Opener.node]

theorem IsEmptyCall.exists_function (h : IsEmptyCall name s) (hu : asciiLower name ≠ "url") (p : Position) :
    ∃ q arguments closed, (Node.ofLexemes (lexemesFrom p s)).filter (fun m => !m.isSpace) =
      [.function q name arguments closed] ∧ ∀ m ∈ arguments, m.isSpace = true := by
  cases h with
  | @call g u t n hg hi hn ht =>
    cases u with
    | nil => cases hi
    | cons c u =>
      obtain ⟨⟨ls, hls, hl⟩, -⟩ := hg.exists_lexemes (t := c :: u) (by simpa using isSpace_of_startsIdentifier hi) p
      obtain ⟨arguments, after, closed, harguments, hafter, hrun⟩ :=
        ht.exists_function name ((p.after g).after ((c :: u).take (1 + n)))
      have hopen : lexemesFrom (p.after g) (c :: u) = (p.after g, .opensFunction name) ::
          lexemesFrom ((p.after g).after ((c :: u).take (1 + n))) t := by
        rw [lexemesFrom_cons, nextLexemes_of_readName hi hn hu]
        rfl
      have hspace := Node.filter_not_isSpace_eq_nil_iff.mpr (Node.forall_isSpace_ofToken hls)
      refine ⟨p.after g, arguments, closed, ?_, harguments⟩
      rw [Node.ofLexemes, hl, hopen, Assembly.run_append, Assembly.run_tokens, Assembly.run_cons]
      change (Assembly.run ⟨[], [⟨_, .function name, (ls.map Node.ofToken).reverse ++ []⟩]⟩ _).finish.filter _ = _
      rw [hrun, List.append_nil, List.reverse_reverse, List.filter_append, hspace, List.filter_cons_of_pos rfl,
        Node.filter_not_isSpace_eq_nil_iff.mpr hafter]
      rfl

theorem isEmptyCall_iff (hu : asciiLower name ≠ "url") : IsEmptyCall name (clean s) ↔
    ∃ p arguments closed, (Node.read s).filter (fun m => !m.isSpace) = [.function p name arguments closed] ∧
      ∀ m ∈ arguments, m.isSpace = true := by
  refine ⟨fun h => h.exists_function hu .start, ?_⟩
  rintro ⟨p, arguments, closed, hread, harguments⟩
  obtain ⟨before, inside, after, hbefore, hinside, hafter, hkinds⟩ := exists_kinds_of_read hread harguments
  exact isEmptyCall_of_kinds hbefore hinside hafter hkinds

end ColorCensus.Css
