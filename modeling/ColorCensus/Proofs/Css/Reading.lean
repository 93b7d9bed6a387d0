import ColorCensus.Proofs.Css.Fence
import ColorCensus.Proofs.Css.Relocation
import ColorCensus.Proofs.Text.Split

namespace ColorCensus.Css

open Text CodePoint

variable {c : CodePoint} {s t : Text} {p : Position} {q q' : CodePoint → Prop} {ns ms : List Node}

theorem lexemesFrom_name (ht : ∀ d ∈ c :: t, isNameChar d = true) (hc : isNameStart c = true)
    (hs : ∀ d ∈ s.head?, isNameChar d = false ∧ d ≠ char '\\' ∧ d ≠ char '(' ∧ d ≠ char '+') :
    lexemesFrom p (c :: t ++ s) = (p, .token (.ident (c :: t))) :: lexemesFrom (p.after (c :: t)) s := by
  have hspace : isSpace c = false := isSpace_of_isNameStart hc
  have hi : startsIdentifier (c :: (t ++ s)) = true := startsIdentifier_of_isNameStart hc
  have hm : c ≠ char '-' := by
    rintro rfl
    exact absurd hc (by decide)
  have hr : startsRange (c :: (t ++ s)) = false := by
    refine startsRange_of_head? fun hp => ?_
    cases t with
    | nil => exact (hs _ hp).2.2.2 rfl
    | cons d t =>
      obtain rfl := Option.some.inj hp
      exact absurd (ht (char '+') (by simp)) (by decide)
  have hname : readName (c :: t ++ s) = ⟨c :: t, (c :: t).length, s⟩ :=
    readName_append ht fun d hd => ⟨(hs d hd).1, (hs d hd).2.1⟩
  refine lexemesFrom_of_next (l := [.token (.ident (c :: t))]) ?_
  rw [nextLexemes, if_neg (by simp [hspace]), if_neg (by simp [hr]), if_neg fun h => hm h.1, if_pos hi,
    readIdentLike, ← List.cons_append, hname, readAfterName_of_head?]
  · simp [Read.widen]
  · exact fun h => (hs _ h).2.2.1 rfl

theorem lexemesFrom_closing (b : Bracket) : lexemesFrom p (b.closing :: s) =
    (p, .closes b) :: lexemesFrom (p.after [b.closing]) s := by
  cases b <;> exact lexemesFrom_punctuation (by decide)

def Node.unplaced : Node → Node := Node.relocate fun _ => .start

def Reads (q : CodePoint → Prop) (s : Text) (ns : List Node) : Prop :=
  ∀ (p : Position) (before : List Node) (frames : List Frame) (t : Text), (∀ c ∈ t.head?, q c) →
    ∃ ms : List Node, ms.map Node.unplaced = ns ∧
      (Assembly.mk before frames).run (lexemesFrom p (s ++ t)) =
        (Assembly.mk (ms.reverse ++ before) frames).run (lexemesFrom (p.after s) t)

theorem Assembly.run_cons {a : Assembly} {l : Position × Lexeme} {ls : List (Position × Lexeme)} :
    a.run (l :: ls) = (a.step l).run ls := rfl

namespace Reads

theorem nil : Reads q [] [] := fun _ _ _ _ _ => ⟨[], rfl, rfl⟩

theorem weaken (h : Reads q s ns) (hq : ∀ c, q' c → q c) : Reads q' s ns :=
  fun p before frames t ht => h p before frames t fun c hc => hq c (ht c hc)

theorem append (hs : Reads q s ns) (ht : Reads q' t ms) (h : ∀ c ∈ t.head?, q c)
    (h0 : t = [] → ∀ c, q' c → q c) : Reads q' (s ++ t) (ns ++ ms) := by
  intro p before frames u hu
  have hq : ∀ c ∈ (t ++ u).head?, q c := by
    cases t with
    | nil => exact fun c hc => h0 rfl c (hu c hc)
    | cons d t => exact h
  obtain ⟨xs, rfl, hxs⟩ := hs p before frames (t ++ u) hq
  obtain ⟨ys, rfl, hys⟩ := ht (p.after s) (xs.reverse ++ before) frames u hu
  refine ⟨xs ++ ys, List.map_append, ?_⟩
  rw [List.append_assoc, hxs, hys, Position.after_append, List.reverse_append, List.append_assoc]

theorem append_cons (hs : Reads q s ns) (ht : Reads q' (c :: t) ms) (h : q c) :
    Reads q' (s ++ c :: t) (ns ++ ms) := by
  refine hs.append ht (fun d hd => ?_) fun h0 => absurd h0 (List.cons_ne_nil c t)
  exact Option.some.inj hd ▸ h

theorem of_lexeme {token : Token} (h : ∀ p t, (∀ c ∈ t.head?, q c) →
    lexemesFrom p (s ++ t) = (p, .token token) :: lexemesFrom (p.after s) t) :
    Reads q s [.token .start token] := by
  intro p before frames t ht
  refine ⟨[.token p token], rfl, ?_⟩
  rw [h p t ht]
  rfl

theorem name (ht : ∀ d ∈ c :: t, isNameChar d = true) (hc : isNameStart c = true) :
    Reads (fun d => isNameChar d = false ∧ d ≠ char '\\' ∧ d ≠ char '(' ∧ d ≠ char '+') (c :: t)
      [.token .start (.ident (c :: t))] :=
  of_lexeme fun _ _ hs => lexemesFrom_name ht hc hs

theorem numeral (h : Numeral s) :
    Reads (fun d => isNameChar d = false ∧ d ≠ char '\\' ∧ d ≠ char '.' ∧ d ≠ char '%') s
      [.token .start (.number s)] :=
  of_lexeme fun _ _ hs => lexemesFrom_numeral h hs

theorem space (h : isSpace c = true) :
    Reads (fun d => isSpace d = false) [c] [.token .start (.space [c])] :=
  of_lexeme fun _ _ hs => lexemesFrom_isSpace h hs

theorem delimiter (h : c ∈ punctuation) (ho : Bracket.opened? c = none) (hc : Bracket.closed? c = none) :
    Reads (fun _ => True) [c] [.token .start (.delimiter [c])] := by
  refine of_lexeme fun p t _ => ?_
  rw [List.singleton_append, lexemesFrom_punctuation h, punctuationLexeme, ho, hc]

theorem enclosed {o : Opener} {l : Lexeme} (hs : Reads q s ns) (hq : q o.bracket.closing)
    (ho : ∀ p u, lexemesFrom p (t ++ u) = (p, l) :: lexemesFrom (p.after t) u)
    (hl : ∀ (a : Assembly) p, a.step (p, l) = a.enter p o) :
    Reads (fun _ => True) (t ++ s ++ [o.bracket.closing]) [o.node .start ns true] := by
  intro p before frames u _
  obtain ⟨ms, rfl, hms⟩ := hs (p.after t) [] (⟨p, o, before⟩ :: frames) (o.bracket.closing :: u)
    (by simpa using hq)
  refine ⟨[o.node p ms true], ?_, ?_⟩
  · exact congrArg (fun n => [n]) Opener.node_relocate
  · have happ : t ++ s ++ [o.bracket.closing] ++ u = t ++ (s ++ o.bracket.closing :: u) := by simp
    have hclose (x : Position) : (Assembly.mk (ms.reverse ++ []) (⟨p, o, before⟩ :: frames)).step
        (x, .closes o.bracket) = ⟨o.node p ms true :: before, frames⟩ := by
      rw [List.append_nil]
      exact (if_pos rfl).trans (by rw [List.reverse_reverse])
    rw [happ, ho, Assembly.run_cons, hl, Assembly.enter, hms, lexemesFrom_closing, Assembly.run_cons,
      hclose, Position.after_append, Position.after_append]
    rfl

theorem function {name : Text} (hn : ∀ d ∈ c :: name, isNameChar d = true)
    (hc : isNameStart c = true ∧ c ≠ char 'u' ∧ c ≠ char 'U') (hu : asciiLower (c :: name) ≠ "url")
    (hs : Reads q s ns) (hq : q (char ')')) :
    Reads (fun _ => True) (c :: name ++ char '(' :: s ++ [char ')'])
      [.function .start (c :: name) ns true] := by
  have h := hs.enclosed (o := .function (c :: name)) (l := .opensFunction (c :: name))
    (t := c :: name ++ [char '(']) hq (fun p u => ?_) (fun a p => rfl)
  · simpa [Opener.bracket, Bracket.closing, Opener.node] using h
  · rw [List.append_assoc]
    exact lexemesFrom_function hn hc hu

theorem curly (hs : Reads q s ns) (hq : q Bracket.curly.closing) :
    Reads (fun _ => True) (Bracket.curly.opening :: s ++ [Bracket.curly.closing])
      [.block .start .curly ns true] :=
  hs.enclosed (o := .block .curly) (l := .opens .curly) (t := [Bracket.curly.opening]) hq
    (fun _ _ => lexemesFrom_punctuation (by decide)) fun _ _ => rfl

variable {α : Type} {f : α → Text} {g : α → List Node} {xs : List α}

theorem flatMap (h : ∀ x ∈ xs, Reads q (f x) (g x)) (hf : ∀ x ∈ xs, ∃ c r, f x = c :: r ∧ q c) :
    Reads q (xs.flatMap f) (xs.flatMap g) := by
  induction xs with
  | nil => exact nil
  | cons x xs ih =>
    obtain ⟨hx, hxs⟩ := List.forall_mem_cons.mp h
    obtain ⟨-, hf⟩ := List.forall_mem_cons.mp hf
    refine hx.append (ih hxs hf) (fun d hd => ?_) fun _ _ hc => hc
    cases xs with
    | nil => cases hd
    | cons y xs =>
      obtain ⟨c, r, hr, hc⟩ := hf y (List.mem_cons_self ..)
      rw [List.map_cons, List.flatten_cons, hr] at hd
      exact Option.some.inj hd ▸ hc

theorem intercalate {sep : Text} {seps : List Node} (hsep : Reads q' (c :: sep) seps) (hc : q c)
    (h : ∀ x ∈ xs, Reads q (f x) (g x)) (hf : ∀ x ∈ xs, ∃ c r, f x = c :: r ∧ q' c) :
    Reads q ((c :: sep).intercalate (xs.map f)) (seps.intercalate (xs.map g)) := by
  induction xs with
  | nil => exact nil
  | cons x xs ih =>
    cases xs with
    | nil =>
      rw [List.map_singleton, List.map_singleton, List.intercalate_singleton, List.intercalate_singleton]
      exact h x (List.mem_cons_self ..)
    | cons y xs =>
      obtain ⟨hx, hxs⟩ := List.forall_mem_cons.mp h
      obtain ⟨-, hf⟩ := List.forall_mem_cons.mp hf
      have ih := ih hxs hf
      obtain ⟨d, r, hr, hd⟩ := hf y (List.mem_cons_self ..)
      obtain ⟨u, hu⟩ : ∃ u, (c :: sep).intercalate ((y :: xs).map f) = d :: u := by
        rw [List.map_cons, hr]
        exact exists_intercalate_cons
      rw [hu] at ih
      rw [List.map_cons, List.map_cons, List.map_cons, List.map_cons, List.intercalate_cons_cons,
        List.intercalate_cons_cons, ← List.map_cons, ← List.map_cons, hu]
      exact (hx.append_cons hsep hc).append_cons ih hd

end Reads

theorem Node.read_of_reads (h : Reads q s ns) (hs : ∀ c ∈ s, c ≠ '\r' ∧ c ≠ '\x0c' ∧ c ≠ '\x00') :
    (Node.read s).map Node.unplaced = ns := by
  obtain ⟨ms, rfl, hms⟩ := h .start [] [] [] (by simp)
  rw [List.append_nil, lexemesFrom_nil] at hms
  rw [Node.read, lexemes, clean_of_forall hs, Node.ofLexemes, Assembly.empty, hms]
  simp [Assembly.run, Assembly.finish, Assembly.closeAll]

end ColorCensus.Css
