import ColorCensus.Css.Braces
import ColorCensus.Css.Node

namespace ColorCensus.Css

open CodePoint

variable {ns : List Node} {p : Position}

mutual

def Node.parts : Node → List Node
  | .token p t => [.token p t]
  | .function p name arguments closed =>
    .function p name arguments closed :: Node.listParts arguments
  | .block p b content closed => .block p b content closed :: Node.listParts content

def Node.listParts : List Node → List Node
  | [] => []
  | n :: ns => n.parts ++ Node.listParts ns

end

def Node.isRepaired : Node → Bool
  | .token _ t => t == .fault (.unmatched .curly)
  | .block _ .curly _ closed => !closed
  | _ => false

def Node.Balanced (ns : List Node) : Prop := ∀ n ∈ Node.listParts ns, n.isRepaired = false

instance (ns : List Node) : Decidable (Node.Balanced ns) := inferInstanceAs (Decidable (∀ n ∈ _, _))

theorem Node.balanced_nil : Node.Balanced [] := by simp [Node.Balanced, Node.listParts]

theorem Node.balanced_cons {n : Node} :
    Node.Balanced (n :: ns) ↔ Node.Balanced [n] ∧ Node.Balanced ns := by
  simp only [Node.Balanced, Node.listParts, List.append_nil, List.forall_mem_append]

theorem Node.balanced_iff : Node.Balanced ns ↔ ∀ n ∈ ns, Node.Balanced [n] := by
  induction ns with
  | nil => simp [Node.balanced_nil]
  | cons n ns ih => rw [Node.balanced_cons, ih, List.forall_mem_cons]

theorem Node.balanced_reverse : Node.Balanced ns.reverse ↔ Node.Balanced ns := by
  rw [Node.balanced_iff, Node.balanced_iff]
  simp only [List.mem_reverse]

theorem Node.balanced_token {t : Token} :
    Node.Balanced [.token p t] ↔ t ≠ .fault (.unmatched .curly) := by
  simp [Node.Balanced, Node.listParts, Node.parts, Node.isRepaired]

theorem Opener.balanced_node {o : Opener} {closed : Bool} :
    Node.Balanced [o.node p ns closed] ↔
      (o.bracket = .curly → closed = true) ∧ Node.Balanced ns := by
  cases o with
  | function name =>
    simp [Node.Balanced, Node.listParts, Node.parts, Node.isRepaired, Opener.node, Opener.bracket]
  | block b =>
    cases b <;>
      simp [Node.Balanced, Node.listParts, Node.parts, Node.isRepaired, Opener.node, Opener.bracket]

namespace Assembly

def Sound (a : Assembly) : Prop :=
  Node.Balanced a.nodes ∧ ∀ f ∈ a.frames, Node.Balanced f.before

def brackets (a : Assembly) : List Bracket := a.frames.map fun f => f.opener.bracket

end Assembly

def openAfter (brackets : List Bracket) : Lexeme → List Bracket
  | .token _ => brackets
  | .opensFunction _ => .round :: brackets
  | .opens b => b :: brackets
  | .closes b => if brackets.head? = some b then brackets.tail else brackets

def IsStray (brackets : List Bracket) (l : Lexeme) : Prop :=
  l = .closes .curly ∧ brackets.head? ≠ some .curly

def Matched : List Bracket → List Lexeme → Prop
  | brackets, [] => .curly ∉ brackets
  | brackets, l :: ls => ¬ IsStray brackets l ∧ Matched (openAfter brackets l) ls

namespace Assembly

theorem brackets_step (a : Assembly) (l : Position × Lexeme) :
    (a.step l).brackets = openAfter a.brackets l.2 := by
  obtain ⟨p, l⟩ := l
  obtain ⟨nodes, frames⟩ := a
  cases l with
  | token t => rfl
  | opensFunction name => rfl
  | opens b => rfl
  | closes b =>
    cases frames with
    | nil => rfl
    | cons f frames =>
      by_cases h : f.opener.bracket = b
      · simp [step, closeBracket, openAfter, brackets, h]
      · simp [step, closeBracket, openAfter, brackets, h, add]

theorem sound_add {a : Assembly} {t : Token} :
    (a.add (.token p t)).Sound ↔ t ≠ .fault (.unmatched .curly) ∧ a.Sound := by
  rw [Sound, add, Node.balanced_cons, Node.balanced_token, and_assoc]
  rfl

theorem sound_enter {a : Assembly} {o : Opener} : (a.enter p o).Sound ↔ a.Sound := by
  simp only [Sound, enter, Node.balanced_nil, List.forall_mem_cons, true_and]

theorem isStray_closes {b : Bracket} {bs : List Bracket} :
    IsStray bs (.closes b) ↔ b = .curly ∧ bs.head? ≠ some b := by
  rw [IsStray, Lexeme.closes.injEq]
  exact and_congr_right fun h => by rw [h]

theorem sound_closeBracket {a : Assembly} {b : Bracket} :
    (a.closeBracket p b).Sound ↔ a.Sound ∧ ¬ IsStray a.brackets (.closes b) := by
  have hadd : (a.add (.token p (.fault (.unmatched b)))).Sound ↔ a.Sound ∧ ¬ b = .curly := by
    rw [sound_add, and_comm, ne_eq, Token.fault.injEq, TokenFault.unmatched.injEq]
  obtain ⟨nodes, frames⟩ := a
  rw [isStray_closes]
  cases frames with
  | nil => simpa [closeBracket, brackets] using hadd
  | cons f frames =>
    by_cases hb : f.opener.bracket = b
    · have hclose : closeBracket ⟨nodes, f :: frames⟩ p b =
          ⟨f.opener.node f.position nodes.reverse true :: f.before, frames⟩ := if_pos hb
      rw [hclose, Sound, Sound, Node.balanced_cons, Opener.balanced_node, Node.balanced_reverse]
      simp [brackets, hb, and_assoc]
    · have hclose : closeBracket ⟨nodes, f :: frames⟩ p b =
          add ⟨nodes, f :: frames⟩ (.token p (.fault (.unmatched b))) := if_neg hb
      rw [hclose, hadd]
      simp [brackets, hb]

theorem sound_step {a : Assembly} {l : Position × Lexeme}
    (hl : l.2 ≠ .token (.fault (.unmatched .curly))) :
    (a.step l).Sound ↔ a.Sound ∧ ¬ IsStray a.brackets l.2 := by
  obtain ⟨p, l⟩ := l
  cases l with
  | token t =>
    have ht : t ≠ .fault (.unmatched .curly) := fun h => hl (h ▸ rfl)
    simpa [step, IsStray, ht] using sound_add (a := a) (t := t)
  | opensFunction name => simpa [step, IsStray] using sound_enter
  | opens b => simpa [step, IsStray] using sound_enter
  | closes b => exact sound_closeBracket

theorem balanced_closeAll {frames : List Frame} :
    Node.Balanced (closeAll frames ns) ↔
      (Assembly.mk ns frames).Sound ∧ .curly ∉ (Assembly.mk ns frames).brackets := by
  induction frames generalizing ns with
  | nil => simp [closeAll, Sound, brackets, Node.balanced_reverse]
  | cons f frames ih =>
    rw [closeAll, ih, Sound, Sound, Node.balanced_cons, Opener.balanced_node,
      Node.balanced_reverse, List.forall_mem_cons]
    simp only [brackets, List.map_cons, List.mem_cons, Bool.false_eq_true, imp_false, not_or]
    constructor
    · rintro ⟨⟨⟨⟨hb, hn⟩, hf⟩, hfs⟩, hc⟩
      exact ⟨⟨hn, hf, hfs⟩, Ne.symm hb, hc⟩
    · rintro ⟨⟨hn, hf, hfs⟩, hb, hc⟩
      exact ⟨⟨⟨⟨Ne.symm hb, hn⟩, hf⟩, hfs⟩, hc⟩

theorem balanced_finish_run {a : Assembly} {ls : List (Position × Lexeme)}
    (hl : ∀ l ∈ ls, l.2 ≠ .token (.fault (.unmatched .curly))) :
    Node.Balanced (a.run ls).finish ↔ a.Sound ∧ Matched a.brackets (ls.map (·.2)) := by
  induction ls generalizing a with
  | nil => exact balanced_closeAll
  | cons l ls ih =>
    -- once a lexeme is stray the assembly is unsound for good
    obtain ⟨h, hl⟩ := List.forall_mem_cons.mp hl
    have hstep : Node.Balanced ((a.step l).run ls).finish ↔
        (a.step l).Sound ∧ Matched (a.step l).brackets (ls.map (·.2)) := ih hl
    rw [brackets_step, sound_step h, and_assoc] at hstep
    exact hstep

end Assembly

def Lexeme.curly : Lexeme → Text
  | .opens .curly => [Bracket.curly.opening]
  | .closes .curly => [Bracket.curly.closing]
  | _ => []

def crosses : List Bracket → List Lexeme → Bool
  | _, [] => false
  | bs, l :: ls =>
    (l == .closes .curly && bs.head?.any (· != .curly)) || crosses (openAfter bs l) ls

theorem matched_iff {bs : List Bracket} {ls : List Lexeme} :
    Matched bs ls ↔
      imbalanceFrom (bs.count .curly) (ls.flatMap Lexeme.curly) = none ∧ crosses bs ls = false := by
  induction ls generalizing bs with
  | nil => simp [Matched, imbalanceFrom, crosses, List.count_eq_zero]
  | cons l ls ih =>
    rw [Matched, ih, crosses, List.flatMap_cons]
    cases l with
    | token t => simp [IsStray, openAfter, Lexeme.curly]
    | opensFunction name => simp [IsStray, openAfter, Lexeme.curly]
    | opens b => cases b <;> simp [IsStray, openAfter, Lexeme.curly, imbalanceFrom, Bracket.opening]
    | closes b =>
      cases bs with
      | nil => cases b <;> simp [IsStray, openAfter, Lexeme.curly, imbalanceFrom, Bracket.closing]
      | cons c bs =>
        cases b <;> cases c <;>
          simp [IsStray, openAfter, Lexeme.curly, imbalanceFrom, Bracket.closing]

def Lexeme.IsMute (l : Lexeme) : Prop := l ≠ .token (.fault (.unmatched .curly)) ∧ l.curly = []

variable {c : CodePoint} {s : Text}

theorem isMute_urlLexemes (v : UrlValue) : ∀ l ∈ urlLexemes v, l.IsMute := by
  unfold urlLexemes
  split
  · simp [Lexeme.IsMute, Lexeme.curly]
  · split <;> simp [Lexeme.IsMute, Lexeme.curly]

theorem isMute_stringLexemes (v : StringValue) : ∀ l ∈ stringLexemes v, l.IsMute := by
  unfold stringLexemes
  split <;> simp [Lexeme.IsMute, Lexeme.curly]

theorem isMute_readAfterName (name : Text) : ∀ l ∈ (readAfterName name s).value, l.IsMute := by
  unfold readAfterName
  split
  · split
    · exact isMute_urlLexemes _
    · simp [Lexeme.IsMute, Lexeme.curly]
  · simp [Lexeme.IsMute, Lexeme.curly]

theorem isMute_mark (n : Nat) (t s : Text) : ∀ l ∈ (mark n t s).value, l.IsMute := by
  simp [mark, Lexeme.IsMute, Lexeme.curly]

theorem isMute_readMark : ∀ l ∈ (readMark c s).value, l.IsMute := by
  unfold readMark
  split
  · simp [Read.map, Lexeme.IsMute, Lexeme.curly]
  · split
    · simp [Read.map, Lexeme.IsMute, Lexeme.curly]
    · split
      · exact isMute_stringLexemes _
      · split
        · split
          · simp [Read.map]
          · exact isMute_mark _ _ _
        · split
          · exact isMute_mark _ _ _
          · split
            · exact isMute_mark _ _ _
            · split <;> exact isMute_mark _ _ _

theorem readRange_ne_fault (f : TokenFault) : (readRange s).value ≠ .fault f := by
  unfold readRange readRangeEnd
  dsimp only
  split
  · split
    · split <;> simp [Read.widen, Read.map]
    · simp [Read.widen]
  · simp [Read.widen, Read.map]

theorem readUnit_ne_fault (text : Text) (f : TokenFault) : (readUnit text s).value ≠ .fault f := by
  unfold readUnit
  split
  · simp [Read.map]
  · split <;> simp

theorem nextLexemes_ne_unmatched :
    ∀ l ∈ (nextLexemes c s).value, l ≠ .token (.fault (.unmatched .curly)) := by
  unfold nextLexemes
  split
  · simp [Read.map, Read.widen]
  · split
    · simpa [Read.map, Read.widen] using readRange_ne_fault _
    · split
      · exact fun l hl => (isMute_mark 2 _ s l hl).1
      · split
        · exact fun l hl => (isMute_readAfterName _ l hl).1
        · split
          · simpa [Read.map, Read.widen] using readUnit_ne_fault _ _
          · split
            · simp
            · simp
            · exact fun l hl => (isMute_readMark l hl).1

theorem lexemesFrom_ne_unmatched :
    ∀ l ∈ lexemesFrom p s, l.2 ≠ .token (.fault (.unmatched .curly)) := by
  fun_induction lexemesFrom p s with
  | case1 p => simp
  | case2 p c s next ih =>
    intro l hl
    rcases List.mem_append.mp hl with h | h
    · obtain ⟨x, hx, rfl⟩ := List.mem_map.mp h
      exact nextLexemes_ne_unmatched x hx
    · exact ih l h

theorem balanced_read_iff :
    Node.Balanced (Node.read s) ↔ Matched [] ((lexemes s).map (·.2)) := by
  have h : Node.Balanced (Assembly.empty.run (lexemes s)).finish ↔ _ :=
    Assembly.balanced_finish_run lexemesFrom_ne_unmatched
  have h0 : Assembly.empty.Sound := by simp [Assembly.Sound, Assembly.empty, Node.balanced_nil]
  rw [Node.read, Node.ofLexemes, h]
  simp only [h0, true_and]
  rfl

end ColorCensus.Css
