import ColorCensus.Proofs.Css.LineEnds
import ColorCensus.Proofs.Css.Outline
import ColorCensus.Proofs.Css.Reading

namespace ColorCensus.Css

open Text CodePoint

variable {c : CodePoint} {s v : Text} {p : Position} {ns : List Node} {ls : List (Position × Lexeme)}

def Lexeme.sign : Lexeme → Text
  | .token (.delimiter t) => t
  | .opens b => [b.opening]
  | .closes b => [b.closing]
  | _ => []

def SignedBy (c : CodePoint) (ls : List Lexeme) : Prop := ∀ l ∈ ls, ∀ d ∈ l.sign.head?, d = c

theorem signedBy_singleton {l : Lexeme} : SignedBy c [l] ↔ ∀ d ∈ l.sign.head?, d = c := by
  simp [SignedBy]

theorem signedBy_token {t : Token} (h : (Lexeme.token t).sign = []) : SignedBy c [.token t] := by
  simp [SignedBy, h]

theorem signedBy_urlLexemes (v : UrlValue) : SignedBy c (urlLexemes v) := by
  unfold urlLexemes
  split
  · exact signedBy_token rfl
  · split <;> simp [SignedBy, Lexeme.sign]

theorem signedBy_stringLexemes (v : StringValue) : SignedBy c (stringLexemes v) := by
  unfold stringLexemes
  split <;> simp [SignedBy, Lexeme.sign]

theorem signedBy_readAfterName (name : Text) : SignedBy c (readAfterName name s).value := by
  unfold readAfterName
  split
  · split
    · exact signedBy_urlLexemes _
    · simp [SignedBy, Lexeme.sign]
  · exact signedBy_token rfl

theorem signedBy_mark {n : ℕ} {text : Text} (h : text.head? = some c) :
    SignedBy c (mark n text s).value := by
  simp [mark, SignedBy, Lexeme.sign, h]

theorem signedBy_readMark : SignedBy c (readMark c s).value := by
  unfold readMark
  split
  · exact signedBy_token rfl
  split
  · exact signedBy_token rfl
  split
  · exact signedBy_stringLexemes _
  split
  · split
    · simp [SignedBy, Read.map]
    · exact signedBy_mark rfl
  split
  · next h => exact signedBy_mark (congrArg some h.1.symm)
  split
  · next h => exact signedBy_mark (congrArg some h.1.symm)
  split <;> exact signedBy_mark rfl

theorem sign_readRange : (Lexeme.token (readRange s).value).sign = [] := by
  unfold readRange readRangeEnd
  dsimp only
  split
  · split
    · split <;> rfl
    · rfl
  · rfl

theorem sign_readUnit (text : Text) : (Lexeme.token (readUnit text s).value).sign = [] := by
  unfold readUnit
  split
  · rfl
  · split <;> rfl

theorem signedBy_nextLexemes : SignedBy c (nextLexemes c s).value := by
  unfold nextLexemes
  split
  · exact signedBy_token rfl
  split
  · exact signedBy_token sign_readRange
  split
  · next h => exact signedBy_mark (n := 2) (s := s) (congrArg some h.1.symm)
  split
  · exact signedBy_readAfterName _
  split
  · exact signedBy_token (sign_readUnit _)
  split
  · next h => exact signedBy_singleton.mpr (by simp [Lexeme.sign, Bracket.eq_opening h])
  · next h => exact signedBy_singleton.mpr (by simp [Lexeme.sign, Bracket.eq_closing h])
  · exact signedBy_readMark

def EndsDeclaration (c : CodePoint) : Prop := c = ';' ∨ c = Bracket.curly.opening ∨ c = Bracket.curly.closing

instance : DecidablePred EndsDeclaration := fun _ => inferInstanceAs (Decidable (_ ∨ _))

def Lexeme.IsInner (l : Lexeme) : Prop := ∀ c ∈ l.sign.head?, ¬ EndsDeclaration c

theorem SignedBy.isInner {ms : List Lexeme} (h : SignedBy c ms) (hc : ¬ EndsDeclaration c) :
    ∀ l ∈ ms, l.IsInner :=
  fun l hl d hd => h l hl d hd ▸ hc

theorem lexemesFrom_value (hv : ∀ c ∈ v, ¬ EndsDeclaration c) :
    ∃ ls : List (Position × Lexeme), (∀ l ∈ ls, l.2.IsInner) ∧
      (lexemesFrom p (v ++ [Bracket.curly.closing]) = ls ∨
        ∃ q, lexemesFrom p (v ++ [Bracket.curly.closing]) = ls ++ [(q, .closes .curly)]) := by
  induction hn : v.length using Nat.strong_induction_on generalizing v p with
  | h n ih =>
    cases v with
    | nil =>
      refine ⟨[], by simp, .inr ⟨p, ?_⟩⟩
      rw [List.nil_append, lexemesFrom_closing, lexemesFrom_nil]
      rfl
    | cons c v =>
      let next := nextLexemes c (v ++ [Bracket.curly.closing])
      have hf : Fenced (c :: (v ++ [Bracket.curly.closing])) :=
        .append_singleton (.inr rfl) (c :: v)
      have hcut : (c :: v ++ [Bracket.curly.closing]).drop next.width = next.rest :=
        (firstLexemes_local hf).cut
      have hw : next.width ≠ 0 := nextLexemes_width_ne_zero _ _
      have hl : ∀ l ∈ next.value.map (fun l => (p, l)), l.2.IsInner :=
        List.forall_mem_map.mpr (signedBy_nextLexemes.isInner (hv c (List.mem_cons_self ..)))
      rw [List.cons_append, lexemesFrom_cons, ← List.cons_append, ← hcut]
      -- what follows is again a value with the bracket behind it, unless the bracket was taken as well
      by_cases hle : next.width ≤ (c :: v).length
      · have hlt : ((c :: v).drop next.width).length < n := by
          rw [List.length_drop]
          omega
        obtain ⟨ls, hls, h⟩ := ih _ hlt (p := p.after ((c :: v ++ [Bracket.curly.closing]).take next.width))
          (fun d hd => hv d (List.mem_of_mem_drop hd)) rfl
        refine ⟨next.value.map (fun l => (p, l)) ++ ls, List.forall_mem_append.mpr ⟨hl, hls⟩, ?_⟩
        rw [List.drop_append_of_le_length hle]
        rcases h with h | ⟨q, h⟩
        · exact .inl (congrArg _ h)
        · exact .inr ⟨q, (congrArg _ h).trans (List.append_assoc ..).symm⟩
      · have hnil : (c :: v ++ [Bracket.curly.closing]).drop next.width = [] := by
          refine List.drop_of_length_le ?_
          rw [List.length_append]
          exact Nat.succ_le_of_lt (not_le.mp hle)
        rw [hnil, lexemesFrom_nil]
        exact ⟨_, hl, .inl (List.append_nil _)⟩

namespace Assembly

variable {a : Assembly} {f : Frame} {nodes : List Node} {frames : List Frame}

def within (f : Frame) (a : Assembly) : Assembly := ⟨a.nodes, a.frames ++ [f]⟩

theorem within_step {l : Position × Lexeme} (h : l.2 ≠ .closes f.opener.bracket) :
    (a.within f).step l = (a.step l).within f := by
  obtain ⟨p, l⟩ := l
  cases l with
  | closes b =>
    obtain ⟨nodes, frames⟩ := a
    cases frames with
    | nil => exact if_neg fun hb => h (congrArg Lexeme.closes hb.symm)
    | cons g frames =>
      simp only [step, within, List.cons_append, closeBracket]
      split <;> rfl
  | _ => rfl

theorem within_run (h : ∀ l ∈ ls, l.2 ≠ .closes f.opener.bracket) :
    (a.within f).run ls = (a.run ls).within f := by
  induction ls generalizing a with
  | nil => rfl
  | cons l ls ih =>
    obtain ⟨hl, hls⟩ := List.forall_mem_cons.mp h
    have hs := ih (a := a.step l) hls
    rw [← within_step hl] at hs
    exact hs

theorem closeAll_append (nodes : List Node) (frames : List Frame) (f : Frame) :
    closeAll (frames ++ [f]) nodes =
      (f.opener.node f.position (closeAll frames nodes) false :: f.before).reverse := by
  induction frames generalizing nodes with
  | nil => rfl
  | cons g frames ih => exact ih _

theorem within_finish : (a.within f).finish =
    (f.opener.node f.position a.finish false :: f.before).reverse := closeAll_append ..

theorem within_step_closes (q : Position) : ∃ closed, ∃ ms ⊆ [(q, Lexeme.closes f.opener.bracket)],
    ((a.within f).step (q, .closes f.opener.bracket)).finish =
      (f.opener.node f.position (a.run ms).finish closed :: f.before).reverse := by
  obtain ⟨nodes, frames⟩ := a
  cases frames with
  | nil =>
    refine ⟨true, [], List.nil_subset _, ?_⟩
    exact congrArg finish (if_pos rfl)
  | cons g frames =>
    have hs : (within f ⟨nodes, g :: frames⟩).step (q, .closes f.opener.bracket) =
        (run ⟨nodes, g :: frames⟩ [(q, .closes f.opener.bracket)]).within f := by
      simp only [run, List.foldl_cons, List.foldl_nil, step, within, List.cons_append, closeBracket]
      split <;> rfl
    exact ⟨false, _, List.Subset.refl _, by rw [hs, within_finish]⟩

end Assembly

def colorRule (value : Text) : Text := "a\x7bcolor:" ++ value ++ "\x7d"

theorem clean_colorRule (v : Text) :
    clean (colorRule v) = "a\x7bcolor:" ++ (clean v ++ [Bracket.curly.closing]) := by
  have hv : clean (v ++ "\x7d") = clean v ++ clean "\x7d" := clean_append fun _ => by decide
  have hs : clean ("a\x7bcolor:" ++ (v ++ "\x7d")) = clean "a\x7bcolor:" ++ clean (v ++ "\x7d") :=
    clean_append fun h => absurd h (by decide)
  rw [colorRule, List.append_assoc, hs, hv]
  rfl

theorem forall_mem_head?_cons {q : CodePoint → Prop} (h : q c) : ∀ d ∈ (c :: s).head?, q d :=
  fun _ hd => Option.some.inj hd ▸ h

theorem lexemes_colorRule (v : Text) : ∃ p₁ p₂ p₃ p₄ : Position, lexemes (colorRule v) =
    [(.start, .token (.ident "a")), (p₁, .opens .curly), (p₂, .token (.ident "color")),
      (p₃, .token (.delimiter [':']))] ++ lexemesFrom p₄ (clean v ++ [Bracket.curly.closing]) := by
  generalize hr : clean v ++ [Bracket.curly.closing] = r
  have happ : "a\x7bcolor:" ++ r = [char 'a'] ++ (char '\x7b' :: ([char 'c', 'o', 'l', 'o', 'r'] ++
    (char ':' :: r))) := rfl
  rw [lexemes, clean_colorRule, hr, happ, lexemesFrom_name (by decide) (by decide) (forall_mem_head?_cons (by decide)),
    lexemesFrom_punctuation (by decide),
    lexemesFrom_name (by decide) (by decide) (forall_mem_head?_cons (by decide)),
    lexemesFrom_punctuation (by decide)]
  exact ⟨_, _, _, _, rfl⟩

def Node.IsInner (n : Node) : Prop := n.isDelimiter [';'] = false ∧ n.curlyContent = none

theorem Node.isInner_of_beginning {n : Node} (h : n.beginning.2.IsInner) : n.IsInner := by
  cases n with
  | token p t =>
    refine ⟨Bool.eq_false_iff.mpr fun ht => ?_, rfl⟩
    obtain rfl := Token.isDelimiter_iff.mp ht
    exact h (char ';') rfl (.inl rfl)
  | function p name arguments closed => exact ⟨rfl, rfl⟩
  | block p b content closed =>
    cases b with
    | curly => exact absurd (.inr (.inl rfl)) (h Bracket.curly.opening rfl)
    | _ => exact ⟨rfl, rfl⟩

theorem isInner_of_mem_ofLexemes (h : ∀ l ∈ ls, l.2.IsInner ∨ l.2 = .closes .curly) :
    ∀ n ∈ Node.ofLexemes ls, n.IsInner := by
  intro n hn
  apply Node.isInner_of_beginning
  rcases Node.beginning_mem_of_mem_ofLexemes hn with hm | ⟨b, hb⟩
  · refine (h _ hm).resolve_right fun hc => ?_
    cases n <;> cases hc
  · rw [hb]
    exact fun c hc => by cases hc

theorem read_colorRule (hv : ∀ c ∈ v, ¬ EndsDeclaration c) : ∃ p₁ p₂ p₃ p₄ closed, ∃ ns : List Node,
    Node.read (colorRule v) = [.token p₁ (.ident "a"), .block p₂ .curly
      (.token p₃ (.ident "color") :: .token p₄ (.delimiter [':']) :: ns) closed] ∧ ∀ n ∈ ns, n.IsInner := by
  obtain ⟨p₁, p₂, p₃, p₄, hlex⟩ := lexemes_colorRule v
  obtain ⟨ls, hls, h⟩ := lexemesFrom_value (p := p₄) (forall_mem_clean hv (by decide) (by decide))
  let f : Frame := ⟨p₁, .block .curly, [.token .start (.ident "a")]⟩
  let base : List Node := [.token p₃ (.delimiter [':']), .token p₂ (.ident "color")]
  have hcloses : ∀ l ∈ ls, l.2 ≠ .closes f.opener.bracket := by
    intro l hl hc
    have hi := hls l hl
    rw [hc] at hi
    exact hi Bracket.curly.closing rfl (.inr (.inr rfl))
  have hrun : (Assembly.empty.onto base |>.within f).run ls = ((Assembly.empty.run ls).onto base).within f :=
    (Assembly.within_run hcloses).trans (congrArg (Assembly.within f) Assembly.onto_run)
  have hfinish (b : Assembly) (closed : Bool) :
      (f.opener.node f.position (b.onto base).finish closed :: f.before).reverse =
        [.token .start (.ident "a"), .block p₁ .curly
          (.token p₂ (.ident "color") :: .token p₃ (.delimiter [':']) :: b.finish) closed] := by
    rw [Assembly.onto_finish]
    rfl
  rw [Node.read, hlex, Node.ofLexemes, Assembly.run_append]
  rcases h with h | ⟨q, h⟩
  · refine ⟨.start, p₁, p₂, p₃, false, Node.ofLexemes ls, ?_, isInner_of_mem_ofLexemes fun l hl => .inl (hls l hl)⟩
    rw [h]
    exact (congrArg Assembly.finish hrun).trans (Assembly.within_finish.trans (hfinish _ _))
  · -- inside a bracket that is still open the last one closes nothing and stays in the value as a fault
    obtain ⟨closed, ms, hms, hclose⟩ :=
      Assembly.within_step_closes (a := (Assembly.empty.run ls).onto base) (f := f) q
    refine ⟨.start, p₁, p₂, p₃, closed, Node.ofLexemes (ls ++ ms), ?_, isInner_of_mem_ofLexemes ?_⟩
    · rw [Assembly.onto_run, ← Assembly.run_append, hfinish] at hclose
      rw [h, Assembly.run_append]
      exact (congrArg (fun a => (Assembly.step a _).finish) hrun).trans hclose
    · refine List.forall_mem_append.mpr ⟨fun l hl => .inl (hls l hl), fun l hl => .inr ?_⟩
      rw [List.mem_singleton.mp (hms hl)]
      rfl

theorem splitDeclaration_of_isInner (h : ∀ n ∈ ns, n.IsInner) : splitDeclaration ns = (ns, none, []) := by
  induction ns with
  | nil => rfl
  | cons n ns ih =>
    obtain ⟨hn, hns⟩ := List.forall_mem_cons.mp h
    rw [splitDeclaration, if_neg (by simp [hn.1]), if_neg (by simp [hn.2]), ih hns]

theorem ValueScan.mixed_step {n : Node} (h : n.IsInner) (x : ValueScan) : (x.step n).mixed = x.mixed := by
  rw [ValueScan.step]
  split
  · rfl
  split
  · rfl
  split
  · rfl
  · simp [h.2]

theorem exists_declarationValue (h : ∀ n ∈ ns, n.IsInner) : ∃ value, declarationValue ns = some value := by
  have hm (x : ValueScan) : (ns.foldl ValueScan.step x).mixed = x.mixed := by
    induction ns generalizing x with
    | nil => rfl
    | cons n ns ih =>
      obtain ⟨hn, hns⟩ := List.forall_mem_cons.mp h
      exact (ih hns _).trans (ValueScan.mixed_step hn x)
  rw [declarationValue, if_neg (by simp [hm, ValueScan.start])]
  split
  · exact ⟨_, rfl⟩
  · exact ⟨_, rfl⟩

theorem readAll_declaration {p₃ p₄ : Position} {value : List Node} (h : ∀ n ∈ ns, n.IsInner)
    (hvalue : declarationValue ns = some value) :
    Item.readAll (.token p₃ (.ident "color") :: .token p₄ (.delimiter [':']) :: ns) =
      [.declaration "color" value] := by
  have hk : ¬ (Node.token p₃ (.ident "color")).IsAtKeyword := by
    rintro ⟨p, keyword, h⟩
    cases h
  have hcolon : (Node.token p₄ (.delimiter [':'])).IsInner := ⟨rfl, rfl⟩
  have hc : (Node.token p₄ (.delimiter [':'])).isDelimiter [':'] = true := rfl
  rw [Item.readAll_item rfl hk rfl, Item.readOne,
    splitDeclaration_of_isInner (List.forall_mem_cons.mpr ⟨hcolon, h⟩), Item.declaration?_ident rfl,
    if_pos hc, hvalue, Item.readAll_nil]
  rfl

theorem unchecked_of_read {p₁ p₂ p₃ p₄ : Position} {closed : Bool} {value : List Node}
    (hread : Node.read s = [.token p₁ (.ident "a"), .block p₂ .curly
      (.token p₃ (.ident "color") :: .token p₄ (.delimiter [':']) :: ns) closed])
    (h : ∀ n ∈ ns, n.IsInner) (hvalue : declarationValue ns = some value) :
    unchecked ["color"] s = ⟨[⟨"color", valueText value⟩], none⟩ := by
  have hk : ¬ (Node.token p₁ (.ident "a")).IsAtKeyword := by
    rintro ⟨p, keyword, h⟩
    cases h
  have hrules : Rule.readAll (Node.read s) = [.style p₁ [.token p₁ (.ident "a")]
      (.token p₃ (.ident "color") :: .token p₄ (.delimiter [':']) :: ns)] := by
    rw [hread]
    exact (Rule.readAll_style rfl hk).trans (congrArg _ Rule.readAll_nil)
  have hne : strip (identifierText "a") ≠ [] := by decide
  have hfault (content : List Node) : (Rule.style p₁ [.token p₁ (.ident "a")] content).fault? = none := by
    rw [Rule.fault?, Node.listText_singleton]
    exact if_neg hne
  rw [unchecked, hrules, List.findSome?_singleton, hfault]
  dsimp only
  rw [extract, List.map_singleton, Rule.extract, readAll_declaration h hvalue]
  rfl

end ColorCensus.Css
