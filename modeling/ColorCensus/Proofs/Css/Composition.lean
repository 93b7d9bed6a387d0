import ColorCensus.Proofs.Css.Balance
import ColorCensus.Proofs.Css.Extraction
import ColorCensus.Proofs.Css.Fence
import ColorCensus.Proofs.Css.Relocation

namespace ColorCensus.Css

open Text CodePoint

variable {a b m s t : Text} {c : CodePoint} {n : Node} {ns ms : List Node} {P : List Text}

theorem clean_cons (h : ¬ (c = '\r' ∧ s.head? = some (char '\n'))) : clean (c :: s) =
    (if c = '\r' ∨ c = '\x0c' then '\n' else if c = '\x00' then '\ufffd' else c : CodePoint) ::
      clean s := by
  rw [clean]
  rintro u rfl rfl
  exact h ⟨rfl, rfl⟩

theorem forall_mem_clean {q : CodePoint → Prop} (h : ∀ c ∈ s, q c) (hl : q (char '\n'))
    (hu : q (char '\ufffd')) : ∀ c ∈ clean s, q c := by
  fun_induction clean s with
  | case1 => exact h
  | case2 s ih =>
    obtain ⟨-, h⟩ := List.forall_mem_cons.mp h
    obtain ⟨-, h⟩ := List.forall_mem_cons.mp h
    exact List.forall_mem_cons.mpr ⟨hl, ih h⟩
  | case3 c s _ ih =>
    obtain ⟨hc, h⟩ := List.forall_mem_cons.mp h
    refine List.forall_mem_cons.mpr ⟨?_, ih h⟩
    split
    · exact hl
    · split
      · exact hu
      · exact hc

theorem clean_append (h : s.getLast? = some (char '\r') → t.head? ≠ some (char '\n')) :
    clean (s ++ t) = clean s ++ clean t := by
  fun_induction clean s with
  | case1 => rfl
  | case2 s ih =>
    have hs : s.getLast? = some (char '\r') → ([char '\r', char '\n'] ++ s).getLast? = some (char '\r') :=
      List.mem_getLast?_append_of_mem_getLast?
    exact congrArg (char '\n' :: ·) (ih fun hl => h (hs hl))
  | case3 c s hc ih =>
    have hn : ¬ (c = char '\r' ∧ (s ++ t).head? = some (char '\n')) := by
      rintro ⟨rfl, ht⟩
      cases s with
      | nil => exact h rfl ht
      | cons d s =>
        obtain rfl := Option.some.inj ht
        exact hc s rfl rfl
    have hs : s.getLast? = some (char '\r') → ([c] ++ s).getLast? = some (char '\r') :=
      List.mem_getLast?_append_of_mem_getLast?
    rw [List.cons_append, clean_cons hn, ih fun hl => h (hs hl)]
    rfl

namespace Assembly

def layers (base : List Node) : List Node → List Frame → List Node × List Frame
  | nodes, [] => (nodes ++ base, [])
  | nodes, f :: frames =>
    (nodes, { f with before := (layers base f.before frames).1 } :: (layers base f.before frames).2)

def onto (base : List Node) (a : Assembly) : Assembly :=
  ⟨(layers base a.nodes a.frames).1, (layers base a.nodes a.frames).2⟩

variable {base nodes : List Node} {frames : List Frame} {a : Assembly}

theorem layers_cons : layers base (n :: nodes) frames =
    (n :: (layers base nodes frames).1, (layers base nodes frames).2) := by
  cases frames <;> rfl

theorem onto_add : (a.onto base).add n = (a.add n).onto base := by
  rw [onto, add, add, onto, layers_cons]

theorem onto_closeBracket {p : Position} {b : Bracket} :
    (a.onto base).closeBracket p b = (a.closeBracket p b).onto base := by
  obtain ⟨nodes, frames⟩ := a
  cases frames with
  | nil => rfl
  | cons f frames =>
    rw [closeBracket, onto, layers, closeBracket]
    dsimp only
    split
    · rw [onto, layers_cons]
    · rfl

theorem onto_step {l : Position × Lexeme} : (a.onto base).step l = (a.step l).onto base := by
  obtain ⟨p, l⟩ := l
  cases l with
  | token t => exact onto_add
  | closes b => exact onto_closeBracket
  | _ => rfl

theorem onto_run {ls : List (Position × Lexeme)} : (a.onto base).run ls = (a.run ls).onto base := by
  induction ls generalizing a with
  | nil => rfl
  | cons l ls ih =>
    have hs := ih (a := a.step l)
    rw [← onto_step] at hs
    exact hs

theorem closeAll_layers : closeAll (layers base nodes frames).2 (layers base nodes frames).1 =
    base.reverse ++ closeAll frames nodes := by
  induction frames generalizing nodes with
  | nil => exact List.reverse_append
  | cons f frames ih =>
    rw [layers, closeAll, closeAll, ← ih, layers_cons]

theorem onto_finish : (a.onto base).finish = base.reverse ++ a.finish := closeAll_layers

end Assembly

theorem Node.ofLexemes_append {xs ys : List (Position × Lexeme)}
    (h : (Assembly.empty.run xs).frames = []) :
    Node.ofLexemes (xs ++ ys) = Node.ofLexemes xs ++ Node.ofLexemes ys := by
  obtain ⟨nodes, hx⟩ : ∃ nodes, Assembly.empty.run xs = ⟨nodes, []⟩ := ⟨_, congrArg (Assembly.mk _) h⟩
  have ho : Assembly.mk nodes [] = Assembly.empty.onto nodes := rfl
  rw [Node.ofLexemes, Node.ofLexemes, Assembly.run_append, hx, ho, Assembly.onto_run,
    Assembly.onto_finish, Assembly.onto_finish, Assembly.finish_empty, List.append_nil]
  rfl

def Node.CanEndRule (n : Node) : Prop := n.curlyContent.isSome = true ∨ n.isDelimiter [';'] = true

theorem forall_getLast?_of_suffix {α : Type} {q : α → Prop} {xs ys : List α} (h : xs <:+ ys)
    (hq : ∀ x ∈ ys.getLast?, q x) : ∀ x ∈ xs.getLast?, q x := by
  obtain ⟨zs, rfl⟩ := h
  exact fun x hx => hq x (List.mem_getLast?_append_of_mem_getLast? hx)

theorem splitAtRule_rest_suffix (ns : List Node) : (splitAtRule ns).2.2 <:+ ns := by
  induction ns with
  | nil => exact List.suffix_rfl
  | cons n ns ih =>
    rw [splitAtRule]
    split
    · exact List.suffix_cons n ns
    · split
      · exact List.suffix_cons n ns
      · exact ih.trans (List.suffix_cons n ns)

theorem splitAtRule_append (h : ∃ n ∈ ns, n.CanEndRule) (ms : List Node) : splitAtRule (ns ++ ms) =
    ((splitAtRule ns).1, (splitAtRule ns).2.1, (splitAtRule ns).2.2 ++ ms) := by
  induction ns with
  | nil => simp at h
  | cons n ns ih =>
    rw [List.cons_append, splitAtRule, splitAtRule]
    cases hc : n.curlyContent with
    | some content => rfl
    | none =>
      dsimp only
      split
      · rfl
      · next hd =>
        have hn : ¬ n.CanEndRule := by simp [Node.CanEndRule, hc, hd]
        rw [ih ((List.exists_mem_cons_iff ..).mp h |>.resolve_left hn)]

theorem splitBlock_append {prelude content after : List Node}
    (h : splitBlock ns = (prelude, some (content, after))) (ms : List Node) :
    splitBlock (ns ++ ms) = (prelude, some (content, after ++ ms)) := by
  induction ns generalizing prelude with
  | nil => cases h
  | cons n ns ih =>
    rw [splitBlock] at h
    rw [List.cons_append, splitBlock]
    split at h
    · obtain ⟨rfl, hr⟩ := Prod.mk.inj h
      obtain ⟨rfl, rfl⟩ := Prod.mk.inj (Option.some.inj hr)
      rfl
    · obtain ⟨rfl, hr⟩ := Prod.mk.inj h
      rw [ih (Prod.ext rfl hr)]

theorem splitBlock_suffix {prelude content after : List Node}
    (h : splitBlock ns = (prelude, some (content, after))) : after <:+ ns := by
  induction ns generalizing prelude with
  | nil => cases h
  | cons n ns ih =>
    rw [splitBlock] at h
    split at h
    · obtain ⟨rfl, hr⟩ := Prod.mk.inj h
      obtain ⟨rfl, rfl⟩ := Prod.mk.inj (Option.some.inj hr)
      exact List.suffix_cons n ns
    · exact (ih (Prod.ext rfl (Prod.mk.inj h).2)).trans (List.suffix_cons n ns)

theorem Rule.readAll_append (hl : ∀ n ∈ ns.getLast?, n.CanEndRule)
    (hr : ∀ rule ∈ Rule.readAll ns, rule.fault? = none) (ms : List Node) :
    Rule.readAll (ns ++ ms) = Rule.readAll ns ++ Rule.readAll ms := by
  -- what is left behind a rule is a suffix, so the last component stays one at which a rule can end
  fun_induction Rule.readAll ns with
  | case1 => rfl
  | case2 n ns h ih =>
    rw [List.cons_append, Rule.readAll_between h,
      ih (forall_getLast?_of_suffix (List.suffix_cons n ns) hl) hr]
  | case3 ns p keyword _ h ih =>
    have hsuffix := (splitAtRule_rest_suffix ns).trans (List.suffix_cons (.token p (.atKeyword keyword)) ns)
    have he : ∃ n ∈ ns, n.CanEndRule := by
      cases hn : ns.getLast? with
      | none =>
        rw [List.getLast?_eq_none_iff.mp hn] at hl
        simp [Node.CanEndRule, Node.curlyContent, Node.isDelimiter, Token.isDelimiter] at hl
      | some n => exact ⟨n, List.mem_of_getLast? hn, forall_getLast?_of_suffix (List.suffix_cons _ ns) hl n hn⟩
    rw [List.cons_append, Rule.readAll_atKeyword, splitAtRule_append he,
      ih (forall_getLast?_of_suffix hsuffix hl) fun rule h => hr rule (List.mem_cons_of_mem _ h)]
    rfl
  | case4 ns n hk _ h ih =>
    have hn : ¬ n.IsAtKeyword := by
      rintro ⟨p, keyword, rfl⟩
      exact hk p keyword rfl
    have hb : n.isBetweenRules = false := by simpa using h
    cases hs : splitBlock (n :: ns) with
    | mk prelude r =>
      cases r with
      | none =>
        -- a rule without a block would be the fault that `hr` excludes
        have hstyle : (Rule.readStyle n ns).1 =
            .broken ((prelude.getLast?.getD n).position) .noBlock := by rw [Rule.readStyle, hs]
        have hf := hr _ (List.mem_cons_self ..)
        rw [hstyle] at hf
        cases hf
      | some r =>
        have hstyle : Rule.readStyle n ns = (.style n.position prelude r.1, r.2) := by
          rw [Rule.readStyle, hs]
        have happ : Rule.readStyle n (ns ++ ms) = (.style n.position prelude r.1, r.2 ++ ms) := by
          rw [Rule.readStyle, ← List.cons_append, splitBlock_append hs]
        rw [hstyle] at ih hr
        have hsuffix := splitBlock_suffix hs
        rw [List.cons_append, Rule.readAll_style hb hn, happ, hstyle,
          ih (forall_getLast?_of_suffix hsuffix hl) fun rule h => hr rule (List.mem_cons_of_mem _ h)]
        rfl

def lastPlace (s : Text) : Position := Position.start.after (clean s).dropLast

def endPlace (s : Text) : Position := Position.start.after (clean s)

structure EndsWith (s : Text) (c : CodePoint) (l : Lexeme) (brackets : List Bracket) : Prop where
  character : s.getLast? = some c
  lexeme : (lexemes s).getLast? = some (lastPlace s, l)
  opened : (Assembly.empty.run (lexemes s).dropLast).brackets = brackets

def EndsRule (s : Text) : Prop :=
  s = [] ∨ EndsWith s Bracket.curly.closing (.closes .curly) [.curly] ∨
    EndsWith s ';' (.token (.delimiter [';'])) []

theorem clean_append_of_isFence (hc : IsFence c) (hs : s.getLast? = some c) (t : Text) :
    clean (s ++ t) = clean s ++ clean t := by
  refine clean_append fun h => ?_
  rw [hs] at h
  obtain rfl := Option.some.inj h
  exact absurd hc (by decide)

theorem clean_singleton (hc : IsFence c) : clean [c] = [c] := by
  rcases hc with rfl | rfl <;> rfl

theorem fenced_clean (hc : IsFence c) (hs : s.getLast? = some c) : Fenced (clean s) := by
  obtain ⟨r, rfl⟩ := List.getLast?_eq_some_iff.mp hs
  have h : clean (r ++ [c]) = clean r ++ clean [c] := by
    refine clean_append fun _ hn => ?_
    obtain rfl := Option.some.inj hn
    exact absurd hc (by decide)
  rw [h, clean_singleton hc]
  exact .append_singleton hc _

theorem lexemes_movedFrom (s : Text) (p : Position) (hl : 0 < p.line) (hc : 0 < p.column) :
    lexemesFrom p (clean s) = (lexemes s).map fun l => (p.movedFrom l.1, l.2) := by
  rw [lexemes, ← lexemesFrom_movedFrom Nat.one_pos, Position.movedFrom_start hl hc]

theorem lexemes_append (h : EndsRule a) (b : Text) : lexemes (a ++ b) =
    lexemes a ++ (lexemes b).map fun l => ((endPlace a).movedFrom l.1, l.2) := by
  rw [← lexemes_movedFrom b (endPlace a) (Position.line_after_pos Nat.one_pos)
    (Position.column_after_pos Nat.one_pos)]
  have happ {c : CodePoint} {l : Lexeme} {brackets : List Bracket} (hc : IsFence c)
      (h : EndsWith a c l brackets) :
      lexemes (a ++ b) = lexemes a ++ lexemesFrom (endPlace a) (clean b) := by
    rw [lexemes, clean_append_of_isFence hc h.character]
    exact lexemesFrom_append (fenced_clean hc h.character) h.lexeme (clean b)
  rcases h with rfl | h | h
  · rw [lexemes, lexemes, clean_nil, lexemesFrom_nil]
    rfl
  · exact happ (by decide) h
  · exact happ (by decide) h

theorem EndsWith.run_lexemes {l : Lexeme} {brackets : List Bracket} (h : EndsWith s c l brackets) :
    Assembly.empty.run (lexemes s) =
      (Assembly.empty.run (lexemes s).dropLast).step (lastPlace s, l) := by
  have hl := List.dropLast_append_getLast? _ h.lexeme
  rw [← hl, Assembly.run_append, List.dropLast_concat]
  rfl

theorem getLast?_finish {nodes : List Node} : (Assembly.mk (n :: nodes) []).finish.getLast? = some n := by
  rw [Assembly.finish, Assembly.closeAll, List.getLast?_reverse]
  rfl

theorem EndsWith.run_block (h : EndsWith s c (.closes .curly) [.curly]) :
    ∃ nodes n, Assembly.empty.run (lexemes s) = ⟨n :: nodes, []⟩ ∧ n.CanEndRule := by
  have ho := h.opened
  rw [h.run_lexemes]
  generalize Assembly.empty.run (lexemes s).dropLast = before at ho ⊢
  obtain ⟨nodes, frames⟩ := before
  obtain ⟨f, rfl, hf⟩ := List.map_eq_singleton_iff.mp ho
  refine ⟨f.before, f.opener.node f.position nodes.reverse true, if_pos hf, .inl ?_⟩
  cases hn : f.opener with
  | function name =>
    rw [hn] at hf
    cases hf
  | block b =>
    rw [hn] at hf
    obtain rfl : b = .curly := hf
    rfl

theorem EndsWith.run_semicolon (h : EndsWith s c (.token (.delimiter [char ';'])) []) :
    ∃ nodes n, Assembly.empty.run (lexemes s) = ⟨n :: nodes, []⟩ ∧ n.CanEndRule := by
  have ho := h.opened
  rw [h.run_lexemes]
  generalize Assembly.empty.run (lexemes s).dropLast = before at ho ⊢
  obtain ⟨nodes, frames⟩ := before
  obtain rfl : frames = [] := List.map_eq_nil_iff.mp ho
  exact ⟨nodes, .token (lastPlace s) (.delimiter [char ';']), rfl, .inr rfl⟩

theorem EndsRule.run_lexemes (h : EndsRule a) : (Assembly.empty.run (lexemes a)).frames = [] ∧
    ∀ n ∈ (Node.read a).getLast?, n.CanEndRule := by
  have hrun (h : ∃ nodes n, Assembly.empty.run (lexemes a) = ⟨n :: nodes, []⟩ ∧ n.CanEndRule) :
      (Assembly.empty.run (lexemes a)).frames = [] ∧ ∀ n ∈ (Node.read a).getLast?, n.CanEndRule := by
    obtain ⟨nodes, n, hr, hn⟩ := h
    rw [Node.read, Node.ofLexemes, hr, getLast?_finish]
    exact ⟨rfl, fun m hm => Option.some.inj hm ▸ hn⟩
  rcases h with rfl | h | h
  · rw [Node.read, lexemes, clean_nil, lexemesFrom_nil]
    exact ⟨rfl, by simp [Node.ofLexemes, Assembly.run, Assembly.finish_empty]⟩
  · exact hrun h.run_block
  · exact hrun h.run_semicolon

theorem Node.read_append (h : EndsRule a) (b : Text) : Node.read (a ++ b) =
    Node.read a ++ (Node.read b).map (Node.relocate (endPlace a).movedFrom) := by
  rw [Node.read, lexemes_append h, Node.ofLexemes_append h.run_lexemes.1, Node.ofLexemes_relocate]
  rfl

theorem Rule.readAll_read_append (h : EndsRule a)
    (hr : ∀ rule ∈ Rule.readAll (Node.read a), rule.fault? = none) (b : Text) :
    Rule.readAll (Node.read (a ++ b)) = Rule.readAll (Node.read a) ++
      (Rule.readAll (Node.read b)).map (Rule.relocate (endPlace a).movedFrom) := by
  rw [Node.read_append h, Rule.readAll_append h.run_lexemes.2 hr, Rule.readAll_relocate]

variable {as bs abs ms : List Rule}

theorem parse_append_of_balanced (h : EndsRule a) (ha : parse a = .ok as) (hb : parse b = .ok bs)
    (hi : imbalance (a ++ b) = none) :
    parse (a ++ b) = .ok (as ++ bs.map (Rule.relocate (endPlace a).movedFrom)) := by
  obtain ⟨-, hfa, rfl⟩ := parse_eq_ok.mp ha
  obtain ⟨-, hfb, rfl⟩ := parse_eq_ok.mp hb
  refine parse_eq_ok.mpr ⟨hi, ?_, (Rule.readAll_read_append h hfa b).symm⟩
  intro rule hm
  rcases List.mem_append.mp hm with hm | hm
  · exact hfa rule hm
  · obtain ⟨rule, hrule, rfl⟩ := List.mem_map.mp hm
    rw [Rule.fault?_relocate, hfb rule hrule]
    rfl

def Rule.isAtRule : Rule → Bool
  | .atRule .. => true
  | _ => false

theorem extract_of_isAtRule (h : ∀ rule ∈ ms, rule.isAtRule = true) : extract P ms = .empty := by
  induction ms with
  | nil => rfl
  | cons rule ms ih =>
    have ih := ih fun rule hm => h rule (List.mem_cons_of_mem _ hm)
    have hr := h rule (List.mem_cons_self ..)
    cases rule with
    | atRule p keyword prelude block => exact ih
    | _ => cases hr

theorem extract_readAll_read_append (h : EndsRule a)
    (hr : ∀ rule ∈ Rule.readAll (Node.read a), rule.fault? = none) (b : Text) :
    extract P (Rule.readAll (Node.read (a ++ b))) = (extract P (Rule.readAll (Node.read a))).andThen
      ((extract P (Rule.readAll (Node.read b))).relocate (endPlace a).movedFrom) := by
  rw [Rule.readAll_read_append h hr, extract_append, extract_map_relocate]

theorem Extraction.andThen_relocate {g : Position → Position} (x y : Extraction) :
    (x.andThen (y.relocate g)).declarations = (x.andThen y).declarations ∧
      (x.andThen (y.relocate g)).fault.map SyntaxFault.reason =
        (x.andThen y).fault.map SyntaxFault.reason := by
  obtain ⟨ds, f⟩ := x
  obtain ⟨es, f'⟩ := y
  cases f with
  | some f => exact ⟨rfl, rfl⟩
  | none =>
    cases f' with
    | some f' => exact ⟨rfl, congrArg some SyntaxFault.reason_relocate⟩
    | none => exact ⟨rfl, rfl⟩

theorem parse_append (h : EndsRule a) (ha : parse a = .ok as) (hb : parse b = .ok bs)
    (hab : parse (a ++ b) = .ok abs) :
    abs = as ++ bs.map (Rule.relocate (endPlace a).movedFrom) ∧
    (∀ P, extract P abs =
      (extract P as).andThen ((extract P bs).relocate (endPlace a).movedFrom)) ∧
    ∀ m ms ambs, EndsRule m → parse m = .ok ms → (∀ rule ∈ ms, rule.isAtRule = true) →
      parse (a ++ (m ++ b)) = .ok ambs → ∀ P,
        (extract P ambs).declarations = (extract P abs).declarations ∧
        (extract P ambs).fault.map SyntaxFault.reason = (extract P abs).fault.map SyntaxFault.reason := by
  obtain ⟨-, hfa, rfl⟩ := parse_eq_ok.mp ha
  obtain ⟨-, -, rfl⟩ := parse_eq_ok.mp hb
  obtain ⟨-, -, rfl⟩ := parse_eq_ok.mp hab
  refine ⟨Rule.readAll_read_append h hfa b, fun P => extract_readAll_read_append h hfa b, ?_⟩
  intro m ms ambs hm hpm hat hamb P
  obtain ⟨-, hfm, rfl⟩ := parse_eq_ok.mp hpm
  obtain ⟨-, -, rfl⟩ := parse_eq_ok.mp hamb
  have hmb : extract P (Rule.readAll (Node.read (m ++ b))) =
      (extract P (Rule.readAll (Node.read b))).relocate (endPlace m).movedFrom := by
    rw [extract_readAll_read_append hm hfm, extract_of_isAtRule hat, Extraction.empty_andThen]
  rw [extract_readAll_read_append h hfa, extract_readAll_read_append h hfa, hmb]
  obtain ⟨hd, hf⟩ := Extraction.andThen_relocate (g := (endPlace a).movedFrom)
    (extract P (Rule.readAll (Node.read a))) ((extract P (Rule.readAll (Node.read b))).relocate _)
  obtain ⟨hd', hf'⟩ := Extraction.andThen_relocate (g := (endPlace a).movedFrom)
    (extract P (Rule.readAll (Node.read a))) (extract P (Rule.readAll (Node.read b)))
  obtain ⟨hdm, hfm⟩ := Extraction.andThen_relocate (g := (endPlace m).movedFrom)
    (extract P (Rule.readAll (Node.read a))) (extract P (Rule.readAll (Node.read b)))
  exact ⟨hd.trans (hdm.trans hd'.symm), hf.trans (hfm.trans hf'.symm)⟩

theorem parse_append_at_rules :
    let a : Text := "@media x\x7bb\x7bcolor:tan\x7d\x7dp\x7bcolor:\"\x7d\";q:\\\x7d;r\x7b\x7d\x7d"
    let m : Text := "@font-face\x7bsrc:url(x\n)\x7d@import url(y) all;"
    let b : Text := "i\x7bcolor:red;oops;color:navy\x7d"
    let rules (s : Text) : List Rule := Rule.readAll (Node.read s)
    (EndsRule a ∧ parse a = .ok (rules a) ∧ parse b = .ok (rules b) ∧ parse (a ++ b) = .ok (rules (a ++ b))) ∧
    rules (a ++ b) = rules a ++ (rules b).map (Rule.relocate (endPlace a).movedFrom) ∧
    extract ["color"] (rules (a ++ b)) =
      ⟨[⟨"color", "\"\x7d\""⟩, ⟨"color", "red"⟩], some (.broken ⟨1, 60⟩ .stopped)⟩ ∧
    (EndsRule m ∧ parse m = .ok (rules m) ∧ parse (a ++ (m ++ b)) = .ok (rules (a ++ (m ++ b)))) ∧
    (extract ["color"] (rules (a ++ (m ++ b)))).declarations =
      (extract ["color"] (rules (a ++ b))).declarations := by
  intro a m b rules
  have h : EndsRule a := .inr (.inl ⟨by decide, by decide +kernel, by decide +kernel⟩)
  have hm : EndsRule m := .inr (.inr ⟨by decide, by decide +kernel, by decide +kernel⟩)
  have ha : parse a = .ok (rules a) := parse_eq_ok.mpr ⟨by decide +kernel, by decide +kernel, rfl⟩
  have hb : parse b = .ok (rules b) := parse_eq_ok.mpr ⟨by decide +kernel, by decide +kernel, rfl⟩
  have hab : parse (a ++ b) = .ok (rules (a ++ b)) :=
    parse_eq_ok.mpr ⟨by decide +kernel, by decide +kernel, rfl⟩
  have hpm : parse m = .ok (rules m) := parse_eq_ok.mpr ⟨by decide +kernel, by decide +kernel, rfl⟩
  have hamb : parse (a ++ (m ++ b)) = .ok (rules (a ++ (m ++ b))) :=
    parse_eq_ok.mpr ⟨by decide +kernel, by decide +kernel, rfl⟩
  obtain ⟨hrules, -, hinsert⟩ := parse_append h ha hb hab
  exact ⟨⟨h, ha, hb, hab⟩, hrules, by decide +kernel, ⟨hm, hpm, hamb⟩,
    (hinsert m (rules m) (rules (a ++ (m ++ b))) hm hpm (by decide +kernel) hamb ["color"]).1⟩

end ColorCensus.Css
