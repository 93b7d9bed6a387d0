import ColorCensus.Proofs.Css.Rewriting
import ColorCensus.Proofs.Text.Position

namespace ColorCensus.Css

open Text

variable {g : Position → Position} {p : Position} {n : Node} {ns : List Node}

mutual

def Node.relocate (g : Position → Position) : Node → Node
  | .token p t => .token (g p) t
  | .function p name arguments closed => .function (g p) name (Node.relocateAll g arguments) closed
  | .block p b content closed => .block (g p) b (Node.relocateAll g content) closed

def Node.relocateAll (g : Position → Position) : List Node → List Node
  | [] => []
  | n :: ns => n.relocate g :: Node.relocateAll g ns

end

def Rewriting.ofPlace (g : Position → Position) : Rewriting where
  place := g
  name := id
  token := id
  token_fault _ := rfl
  isSpace_token _ := rfl
  isDelimiter_token _ _ := rfl
  kind_token _ := rfl
  isImportant_token _ t := by cases t <;> rfl
  startsWithNewline_token _ t := by cases t <;> rfl
  endsInString_token _ t := by
    cases t with
    | fault f => cases f <;> rfl
    | _ => rfl

namespace Node

mutual

theorem relocate_eq : ∀ n : Node, n.relocate g = n.rewrite (.ofPlace g)
  | .token .. => rfl
  | .function p name arguments closed =>
    congrArg (Node.function (g p) name · closed) (relocateAll_eq_rewriteAll arguments)
  | .block p b content closed => congrArg (Node.block (g p) b · closed) (relocateAll_eq_rewriteAll content)

theorem relocateAll_eq_rewriteAll : ∀ ns : List Node, relocateAll g ns = rewriteAll (.ofPlace g) ns
  | [] => rfl
  | n :: ns => by
    rw [relocateAll, rewriteAll, relocate_eq n, relocateAll_eq_rewriteAll ns]

end

theorem relocate_eq_rewrite : relocate g = rewrite (.ofPlace g) := funext relocate_eq

theorem relocateAll_eq_map : relocateAll g ns = ns.map (relocate g) := by
  rw [relocateAll_eq_rewriteAll, rewriteAll_eq_map, relocate_eq_rewrite]

theorem position_relocate : (n.relocate g).position = g n.position := by
  cases n <;> rfl

theorem isSpace_relocate : (n.relocate g).isSpace = n.isSpace := by
  cases n <;> rfl

theorem isDelimiter_relocate {text : Text} : (n.relocate g).isDelimiter text = n.isDelimiter text := by
  cases n <;> rfl

theorem curlyContent_relocate :
    (n.relocate g).curlyContent = n.curlyContent.map (List.map (relocate g)) := by
  rw [relocate_eq_rewrite, curlyContent_rewrite]

theorem isSome_curlyContent_relocate :
    (n.relocate g).curlyContent.isSome = n.curlyContent.isSome := by
  rw [curlyContent_relocate, Option.isSome_map]

theorem isBetweenRules_relocate : (n.relocate g).isBetweenRules = n.isBetweenRules := by
  simp only [isBetweenRules, isSpace_relocate, isDelimiter_relocate]

theorem isBetweenItems_relocate : (n.relocate g).isBetweenItems = n.isBetweenItems := by
  simp only [isBetweenItems, isSpace_relocate, isDelimiter_relocate]

theorem kind_relocate : (n.relocate g).kind = n.kind := by
  rw [relocate_eq_rewrite, kind_rewrite]

theorem separatorText_relocate {k : Option Kind} :
    separatorText k (n.relocate g) = separatorText k n := by
  rw [relocate_eq_rewrite, separatorText_rewrite]

theorem listEndsInString_relocate (ns : List Node) :
    listEndsInString (relocateAll g ns) = listEndsInString ns := by
  rw [relocateAll_eq_rewriteAll, listEndsInString_rewrite]

mutual

theorem text_relocate : ∀ n : Node, (n.relocate g).text = n.text
  | .token _ _ => rfl
  | .function _ _ arguments _ => by
    rw [relocate, text, text, listTextAfter_relocate, listEndsInString_relocate]
  | .block _ _ content _ => by
    rw [relocate, text, text, listTextAfter_relocate]

theorem listTextAfter_relocate :
    ∀ (k : Option Kind) (ns : List Node), listTextAfter k (relocateAll g ns) = listTextAfter k ns
  | _, [] => rfl
  | k, n :: ns => by
    rw [relocateAll, listTextAfter, listTextAfter, separatorText_relocate, text_relocate, kind_relocate,
      listTextAfter_relocate]

end

theorem listText_map_relocate : listText (ns.map (relocate g)) = listText ns := by
  rw [← relocateAll_eq_map]
  exact listTextAfter_relocate none ns

end Node

def Frame.relocate (g : Position → Position) (f : Frame) : Frame :=
  ⟨g f.position, f.opener, f.before.map (Node.relocate g)⟩

theorem Opener.node_relocate {o : Opener} {closed : Bool} :
    (o.node p ns closed).relocate g = o.node (g p) (ns.map (Node.relocate g)) closed := by
  cases o with
  | function name => exact congrArg (Node.function (g p) name · closed) Node.relocateAll_eq_map
  | block b => exact congrArg (Node.block (g p) b · closed) Node.relocateAll_eq_map

namespace Assembly

variable {a : Assembly}

def relocate (g : Position → Position) (a : Assembly) : Assembly :=
  ⟨a.nodes.map (Node.relocate g), a.frames.map (Frame.relocate g)⟩

theorem relocate_eq_rewrite : a.relocate g = a.rewrite (.ofPlace g) := by
  have hf : Frame.relocate g = Frame.rewrite (.ofPlace g) := by
    funext ⟨p, o, before⟩
    rw [Frame.relocate, Node.relocate_eq_rewrite]
    cases o <;> rfl
  rw [relocate, Node.relocate_eq_rewrite, hf]
  rfl

theorem run_relocate {ls : List (Position × Lexeme)} :
    (a.relocate g).run (ls.map fun l => (g l.1, l.2)) = (a.run ls).relocate g := by
  have hl : ∀ l : Lexeme, l.rewrite (.ofPlace g) = l := by
    intro l
    cases l <;> rfl
  have hr : (a.rewrite (.ofPlace g)).run (ls.map fun l => (g l.1, l.2.rewrite (.ofPlace g))) =
      (a.run ls).rewrite (.ofPlace g) := run_rewrite
  simp only [hl] at hr
  rw [relocate_eq_rewrite, relocate_eq_rewrite]
  exact hr

theorem finish_relocate : (a.relocate g).finish = a.finish.map (Node.relocate g) := by
  rw [relocate_eq_rewrite, finish_rewrite, Node.relocate_eq_rewrite]

end Assembly

theorem Node.ofLexemes_relocate {ls : List (Position × Lexeme)} :
    Node.ofLexemes (ls.map fun l => (g l.1, l.2)) = (Node.ofLexemes ls).map (Node.relocate g) := by
  rw [Node.ofLexemes, Node.ofLexemes, ← Assembly.finish_relocate, ← Assembly.run_relocate]
  rfl

theorem lexemesFrom_movedFrom {base : Position} {s : Text} (h : 0 < p.line) :
    lexemesFrom (base.movedFrom p) s = (lexemesFrom p s).map fun l => (base.movedFrom l.1, l.2) := by
  fun_induction lexemesFrom p s with
  | case1 p => exact lexemesFrom_nil _
  | case2 p c s next ih =>
    rw [lexemesFrom_cons, List.map_append, ← ih (Position.line_after_pos h), Position.movedFrom_after h,
      List.map_map]
    rfl

def Rule.relocate (g : Position → Position) : Rule → Rule
  | .atRule p keyword prelude block =>
    .atRule (g p) keyword (prelude.map (Node.relocate g)) (block.map (List.map (Node.relocate g)))
  | .style p prelude content =>
    .style (g p) (prelude.map (Node.relocate g)) (content.map (Node.relocate g))
  | .broken p fault => .broken (g p) fault

theorem splitBlock_relocate : splitBlock (ns.map (Node.relocate g)) =
    ((splitBlock ns).1.map (Node.relocate g), (splitBlock ns).2.map fun r =>
      (r.1.map (Node.relocate g), r.2.map (Node.relocate g))) := by
  induction ns with
  | nil => rfl
  | cons n ns ih =>
    rw [List.map_cons, splitBlock, splitBlock, Node.curlyContent_relocate]
    cases n.curlyContent with
    | none => simp only [Option.map_none, ih, List.map_cons]
    | some content => rfl

theorem splitAtRule_relocate : splitAtRule (ns.map (Node.relocate g)) =
    ((splitAtRule ns).1.map (Node.relocate g), (splitAtRule ns).2.1.map (List.map (Node.relocate g)),
      (splitAtRule ns).2.2.map (Node.relocate g)) := by
  induction ns with
  | nil => rfl
  | cons n ns ih =>
    rw [List.map_cons, splitAtRule, splitAtRule, Node.curlyContent_relocate, Node.isDelimiter_relocate]
    cases n.curlyContent with
    | none =>
      simp only [Option.map_none, ih]
      split <;> rfl
    | some content => rfl

theorem position_getLast?_relocate {first : Node} :
    (((ns.map (Node.relocate g)).getLast?.getD (first.relocate g)).position) =
      g ((ns.getLast?.getD first).position) := by
  rw [List.getLast?_map, Option.getD_map, Node.position_relocate]

theorem Rule.readStyle_relocate : Rule.readStyle (n.relocate g) (ns.map (Node.relocate g)) =
    ((Rule.readStyle n ns).1.relocate g, (Rule.readStyle n ns).2.map (Node.relocate g)) := by
  rw [Rule.readStyle, Rule.readStyle, ← List.map_cons, splitBlock_relocate]
  obtain ⟨prelude, _ | ⟨content, after⟩⟩ := splitBlock (n :: ns)
  · simp only [Option.map_none, position_getLast?_relocate]
    rfl
  · simp only [Option.map_some, Node.position_relocate]
    rfl

def Node.IsAtKeyword (n : Node) : Prop := ∃ p keyword, n = .token p (.atKeyword keyword)

theorem Node.isAtKeyword_relocate : (n.relocate g).IsAtKeyword ↔ n.IsAtKeyword := by
  cases n <;> simp [IsAtKeyword, relocate]

theorem Rule.readAll_nil : Rule.readAll [] = [] := by rw [Rule.readAll]

theorem Rule.readAll_between (h : n.isBetweenRules = true) : Rule.readAll (n :: ns) = Rule.readAll ns := by
  rw [Rule.readAll.eq_def]
  exact if_pos h

theorem Rule.readAll_atKeyword {keyword : Text} :
    Rule.readAll (.token p (.atKeyword keyword) :: ns) =
      .atRule p keyword (splitAtRule ns).1 (splitAtRule ns).2.1 ::
        Rule.readAll (splitAtRule ns).2.2 := by
  rw [Rule.readAll]
  rfl

theorem Rule.readAll_style (h : n.isBetweenRules = false) (hk : ¬ n.IsAtKeyword) :
    Rule.readAll (n :: ns) = (Rule.readStyle n ns).1 :: Rule.readAll (Rule.readStyle n ns).2 := by
  rw [Rule.readAll, if_neg (by simp [h])]
  rintro p keyword rfl
  exact hk ⟨p, keyword, rfl⟩

theorem Rule.readAll_relocate :
    Rule.readAll (ns.map (Node.relocate g)) = (Rule.readAll ns).map (Rule.relocate g) := by
  fun_induction Rule.readAll ns with
  | case1 => exact Rule.readAll_nil
  | case2 n ns h ih =>
    rw [List.map_cons, Rule.readAll_between (Node.isBetweenRules_relocate.trans h), ih]
  | case3 ns p keyword _ h ih =>
    rw [List.map_cons, Node.relocate, Rule.readAll_atKeyword, splitAtRule_relocate, ih]
    rfl
  | case4 ns n hk _ h ih =>
    have hb : (n.relocate g).isBetweenRules = false := by simpa [Node.isBetweenRules_relocate] using h
    have hn : ¬ (n.relocate g).IsAtKeyword := by
      rw [Node.isAtKeyword_relocate]
      rintro ⟨p, keyword, rfl⟩
      exact hk p keyword rfl
    rw [List.map_cons, Rule.readAll_style hb hn, Rule.readStyle_relocate, ih]
    rfl

def Item.relocate (g : Position → Position) : Item → Item
  | .declaration name value => .declaration name (value.map (Node.relocate g))
  | .atRule keyword => .atRule keyword
  | .nested => .nested
  | .broken p fault => .broken (g p) fault

theorem declarationValue_relocate :
    declarationValue (ns.map (Node.relocate g)) =
      (declarationValue ns).map (List.map (Node.relocate g)) := by
  rw [Node.relocate_eq_rewrite, declarationValue_rewrite]

theorem splitDeclaration_relocate : splitDeclaration (ns.map (Node.relocate g)) =
    ((splitDeclaration ns).1.map (Node.relocate g), (splitDeclaration ns).2.1.map (Node.relocate g),
      (splitDeclaration ns).2.2.map (Node.relocate g)) := by
  induction ns with
  | nil => rfl
  | cons n ns ih =>
    rw [List.map_cons, splitDeclaration, splitDeclaration, Node.isDelimiter_relocate,
      Node.isSome_curlyContent_relocate]
    split
    · rfl
    · split
      · rfl
      · simp only [ih, List.map_cons]

theorem dropWhile_isSpace_relocate : (ns.map (Node.relocate g)).dropWhile Node.isSpace =
    (ns.dropWhile Node.isSpace).map (Node.relocate g) := by
  rw [List.dropWhile_map]
  congr 2
  funext n
  exact Node.isSpace_relocate

theorem Item.declaration?_ident {name : Text} {value : List Node}
    (h : ns.dropWhile Node.isSpace = n :: value) :
    Item.declaration? (.token p (.ident name)) ns =
      if n.isDelimiter [':'] then (declarationValue value).map (Item.declaration name) else none := by
  rw [Item.declaration?.eq_def, h]

theorem Item.declaration?_ident_nil {name : Text} (h : ns.dropWhile Node.isSpace = []) :
    Item.declaration? (.token p (.ident name)) ns = none := by
  rw [Item.declaration?.eq_def, h]

theorem Item.declaration?_relocate : Item.declaration? (n.relocate g) (ns.map (Node.relocate g)) =
    (Item.declaration? n ns).map (Item.relocate g) := by
  cases n with
  | token p t =>
    cases t with
    | ident name =>
      have hd : (ns.map (Node.relocate g)).dropWhile Node.isSpace = _ := dropWhile_isSpace_relocate
      cases h : ns.dropWhile Node.isSpace with
      | nil =>
        rw [h] at hd
        rw [Node.relocate, Item.declaration?_ident_nil h, Item.declaration?_ident_nil hd]
        rfl
      | cons n value =>
        rw [h] at hd
        rw [Node.relocate, Item.declaration?_ident h, Item.declaration?_ident hd,
          Node.isDelimiter_relocate, declarationValue_relocate]
        split
        · rw [Option.map_map, Option.map_map]
          rfl
        · rfl
    | _ => rfl
  | _ => rfl

theorem Item.nested?_relocate {stop : Option Node} :
    Item.nested? (n.relocate g) (ns.map (Node.relocate g)) (stop.map (Node.relocate g)) =
      (Item.nested? n ns stop).relocate g := by
  rw [Item.nested?.eq_def, Item.nested?.eq_def, ← List.map_cons, splitBlock_relocate]
  cases (splitBlock (n :: ns)).2 with
  | some r => rfl
  | none =>
    cases stop with
    | some n => exact congrArg (Item.broken · .stopped) Node.position_relocate
    | none => exact congrArg (Item.broken · .noBlock) position_getLast?_relocate

def Item.readOne (n : Node) (ns : List Node) : Item :=
  (Item.declaration? n (splitDeclaration ns).1).getD
    (Item.nested? n (splitDeclaration ns).1 (splitDeclaration ns).2.1)

theorem Item.readOne_relocate : Item.readOne (n.relocate g) (ns.map (Node.relocate g)) =
    (Item.readOne n ns).relocate g := by
  rw [Item.readOne, Item.readOne, splitDeclaration_relocate, Item.declaration?_relocate,
    Item.nested?_relocate, Option.getD_map]

theorem Item.readAll_nil : Item.readAll [] = [] := by rw [Item.readAll]

theorem Item.readAll_between (h : n.isBetweenItems = true) : Item.readAll (n :: ns) = Item.readAll ns := by
  rw [Item.readAll.eq_def]
  exact if_pos h

theorem Item.readAll_atKeyword {keyword : Text} :
    Item.readAll (.token p (.atKeyword keyword) :: ns) =
      .atRule keyword :: Item.readAll (splitAtRule ns).2.2 := by
  rw [Item.readAll]
  rfl

theorem Item.readAll_block (h : n.isBetweenItems = false) (hk : ¬ n.IsAtKeyword)
    (hc : n.curlyContent.isSome = true) : Item.readAll (n :: ns) = .nested :: Item.readAll ns := by
  rw [Item.readAll, if_neg (by simp [h]), if_pos hc]
  rintro p keyword rfl
  exact hk ⟨p, keyword, rfl⟩

theorem Item.readAll_item (h : n.isBetweenItems = false) (hk : ¬ n.IsAtKeyword)
    (hc : n.curlyContent.isSome = false) :
    Item.readAll (n :: ns) = Item.readOne n ns :: Item.readAll (splitDeclaration ns).2.2 := by
  rw [Item.readAll, if_neg (by simp [h]), if_neg (by simp [hc])]
  · rw [Item.readOne]
    dsimp only
    cases Item.declaration? n (splitDeclaration ns).1 <;> rfl
  · rintro p keyword rfl
    exact hk ⟨p, keyword, rfl⟩

theorem Item.readAll_relocate :
    Item.readAll (ns.map (Node.relocate g)) = (Item.readAll ns).map (Item.relocate g) := by
  have hb {n : Node} (h : ¬ n.isBetweenItems = true) : (n.relocate g).isBetweenItems = false := by
    simpa [Node.isBetweenItems_relocate] using h
  have hn {n : Node} (h : ∀ p keyword, n = .token p (.atKeyword keyword) → False) :
      ¬ (n.relocate g).IsAtKeyword := by
    rw [Node.isAtKeyword_relocate]
    rintro ⟨p, keyword, rfl⟩
    exact h p keyword rfl
  fun_induction Item.readAll ns with
  | case1 => exact Item.readAll_nil
  | case2 n ns h ih =>
    rw [List.map_cons, Item.readAll_between (Node.isBetweenItems_relocate.trans h), ih]
  | case3 ns p keyword _ h ih =>
    rw [List.map_cons, Node.relocate, Item.readAll_atKeyword, splitAtRule_relocate, ih]
    rfl
  | case4 ns n hk hc h ih =>
    rw [List.map_cons, Item.readAll_block (hb h) (hn hk) (Node.isSome_curlyContent_relocate.trans hc), ih]
    rfl
  | case5 ns n hk hc _ split h ih =>
    have hc' : (n.relocate g).curlyContent.isSome = false := by
      simpa [Node.isSome_curlyContent_relocate] using hc
    rw [List.map_cons, Item.readAll_item (hb h) (hn hk) hc', Item.readOne_relocate,
      splitDeclaration_relocate, ih, List.map_cons, Item.readOne]
    cases Item.declaration? n split.1 <;> rfl

def SyntaxFault.relocate (g : Position → Position) : SyntaxFault → SyntaxFault
  | .braces imbalance => .braces imbalance
  | .noSelector p => .noSelector (g p)
  | .broken p fault => .broken (g p) fault

theorem Rule.fault?_relocate {rule : Rule} :
    (rule.relocate g).fault? = rule.fault?.map (SyntaxFault.relocate g) := by
  cases rule with
  | style p prelude content =>
    rw [Rule.relocate, Rule.fault?, Rule.fault?, Node.listText_map_relocate]
    split <;> rfl
  | _ => rfl

theorem SyntaxFault.reason_relocate {f : SyntaxFault} : (f.relocate g).reason = f.reason := by
  cases f <;> rfl

def Extraction.relocate (g : Position → Position) (x : Extraction) : Extraction :=
  ⟨x.declarations, x.fault.map (SyntaxFault.relocate g)⟩

variable {P : List Text}

theorem Extraction.relocate_andThen {x y : Extraction} :
    (x.andThen y).relocate g = (x.relocate g).andThen (y.relocate g) := by
  obtain ⟨ds, f⟩ := x
  cases f <;> rfl

theorem Extraction.relocate_concat {xs : List Extraction} :
    (Extraction.concat xs).relocate g = .concat (xs.map (Extraction.relocate g)) := by
  induction xs with
  | nil => rfl
  | cons x xs ih =>
    have hc : (Extraction.concat (x :: xs)).relocate g =
        (x.relocate g).andThen ((Extraction.concat xs).relocate g) := Extraction.relocate_andThen
    rw [hc, ih]
    rfl

theorem Item.extract_relocate {item : Item} :
    (item.relocate g).extract P = (item.extract P).relocate g := by
  cases item with
  | declaration name value =>
    rw [Item.relocate, Item.extract, Item.extract, valueText, Node.listText_map_relocate]
    split <;> rfl
  | _ => rfl

theorem Rule.extract_relocate {rule : Rule} :
    (rule.relocate g).extract P = (rule.extract P).relocate g := by
  cases rule with
  | style p prelude content =>
    rw [Rule.relocate, Rule.extract, Rule.extract, Item.readAll_relocate, Extraction.relocate_concat,
      List.map_map, List.map_map]
    congr 1
    exact List.map_congr_left fun item _ => Item.extract_relocate
  | _ => rfl

theorem extract_map_relocate {rules : List Rule} :
    extract P (rules.map (Rule.relocate g)) = (extract P rules).relocate g := by
  rw [extract, extract, Extraction.relocate_concat, List.map_map, List.map_map]
  congr 1
  exact List.map_congr_left fun rule _ => Rule.extract_relocate

end ColorCensus.Css
