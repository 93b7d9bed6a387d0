import ColorCensus.Css.Stylesheet

namespace ColorCensus.Css

structure Rewriting where
  place : Position → Position
  name : Text → Text
  token : Token → Token
  token_fault : ∀ f, token (.fault f) = .fault f
  isSpace_token : ∀ t, (token t).isSpace = t.isSpace
  isDelimiter_token : ∀ text t, (token t).isDelimiter text = t.isDelimiter text
  kind_token : ∀ t, (token t).kind = t.kind
  isImportant_token : ∀ p t, (Node.token (place p) (token t)).isImportant = (Node.token p t).isImportant
  startsWithNewline_token : ∀ p t,
    (Node.token (place p) (token t)).startsWithNewline = (Node.token p t).startsWithNewline
  endsInString_token : ∀ p t, (Node.token (place p) (token t)).endsInString = (Node.token p t).endsInString

variable {r : Rewriting} {p : Position} {n : Node} {ns : List Node}

mutual

def Node.rewrite (r : Rewriting) : Node → Node
  | .token p t => .token (r.place p) (r.token t)
  | .function p name arguments closed =>
    .function (r.place p) (r.name name) (Node.rewriteAll r arguments) closed
  | .block p b content closed => .block (r.place p) b (Node.rewriteAll r content) closed

def Node.rewriteAll (r : Rewriting) : List Node → List Node
  | [] => []
  | n :: ns => n.rewrite r :: Node.rewriteAll r ns

end

namespace Node

theorem rewriteAll_eq_map : rewriteAll r ns = ns.map (rewrite r) := by
  induction ns with
  | nil => rfl
  | cons n ns ih => rw [rewriteAll, ih, List.map_cons]

theorem isSpace_rewrite : (n.rewrite r).isSpace = n.isSpace := by
  cases n with
  | token p t => exact r.isSpace_token t
  | _ => rfl

theorem isDelimiter_rewrite {text : Text} : (n.rewrite r).isDelimiter text = n.isDelimiter text := by
  cases n with
  | token p t => exact r.isDelimiter_token text t
  | _ => rfl

theorem isImportant_rewrite : (n.rewrite r).isImportant = n.isImportant := by
  cases n with
  | token p t => exact r.isImportant_token p t
  | _ => rfl

theorem curlyContent_rewrite :
    (n.rewrite r).curlyContent = n.curlyContent.map (List.map (rewrite r)) := by
  cases n with
  | block p b content closed =>
    cases b with
    | curly => exact congrArg some rewriteAll_eq_map
    | _ => rfl
  | _ => rfl

theorem isSome_curlyContent_rewrite : (n.rewrite r).curlyContent.isSome = n.curlyContent.isSome := by
  rw [curlyContent_rewrite, Option.isSome_map]

theorem kind_rewrite : (n.rewrite r).kind = n.kind := by
  cases n with
  | token p t => exact r.kind_token t
  | block p b content closed => cases b <;> rfl
  | _ => rfl

theorem startsWithNewline_rewrite : (n.rewrite r).startsWithNewline = n.startsWithNewline := by
  cases n with
  | token p t => exact r.startsWithNewline_token p t
  | _ => rfl

theorem separatorText_rewrite {k : Option Kind} : separatorText k (n.rewrite r) = separatorText k n := by
  cases k with
  | none => rfl
  | some k => rw [separatorText, separatorText, kind_rewrite, startsWithNewline_rewrite]

mutual

theorem endsInString_rewrite : ∀ n : Node, (n.rewrite r).endsInString = n.endsInString
  | .token p t => r.endsInString_token p t
  | .function _ _ arguments _ => listEndsInString_rewrite arguments
  | .block .. => rfl

theorem listEndsInString_rewrite :
    ∀ ns : List Node, listEndsInString (rewriteAll r ns) = listEndsInString ns
  | [] => rfl
  | [n] => endsInString_rewrite n
  | _ :: n :: ns => listEndsInString_rewrite (n :: ns)

end

end Node

def Lexeme.rewrite (r : Rewriting) : Lexeme → Lexeme
  | .token t => .token (r.token t)
  | .opensFunction name => .opensFunction (r.name name)
  | .opens b => .opens b
  | .closes b => .closes b

def Opener.rewrite (r : Rewriting) : Opener → Opener
  | .function name => .function (r.name name)
  | .block b => .block b

def Frame.rewrite (r : Rewriting) (f : Frame) : Frame :=
  ⟨r.place f.position, f.opener.rewrite r, f.before.map (Node.rewrite r)⟩

theorem Opener.bracket_rewrite {o : Opener} : (o.rewrite r).bracket = o.bracket := by
  cases o <;> rfl

theorem Opener.node_rewrite {o : Opener} {closed : Bool} : (o.node p ns closed).rewrite r =
    (o.rewrite r).node (r.place p) (ns.map (Node.rewrite r)) closed := by
  cases o with
  | function name =>
    exact congrArg (Node.function (r.place p) (r.name name) · closed) Node.rewriteAll_eq_map
  | block b => exact congrArg (Node.block (r.place p) b · closed) Node.rewriteAll_eq_map

namespace Assembly

variable {a : Assembly}

def rewrite (r : Rewriting) (a : Assembly) : Assembly :=
  ⟨a.nodes.map (Node.rewrite r), a.frames.map (Frame.rewrite r)⟩

theorem add_unmatched_rewrite {b : Bracket} :
    (a.rewrite r).add (.token (r.place p) (.fault (.unmatched b))) =
      (a.add (.token p (.fault (.unmatched b)))).rewrite r :=
  congrArg (fun t => (a.rewrite r).add (.token (r.place p) t)) (r.token_fault (.unmatched b)).symm

theorem closeBracket_rewrite {b : Bracket} :
    (a.rewrite r).closeBracket (r.place p) b = (a.closeBracket p b).rewrite r := by
  obtain ⟨nodes, frames⟩ := a
  cases frames with
  | nil => exact add_unmatched_rewrite
  | cons f frames =>
    rw [closeBracket, rewrite, List.map_cons, closeBracket]
    dsimp only [Frame.rewrite]
    rw [Opener.bracket_rewrite]
    split
    · rw [rewrite, List.map_cons, Opener.node_rewrite, List.map_reverse]
    · exact add_unmatched_rewrite (a := ⟨nodes, f :: frames⟩)

theorem step_rewrite {l : Position × Lexeme} :
    (a.rewrite r).step (r.place l.1, l.2.rewrite r) = (a.step l).rewrite r := by
  obtain ⟨p, l⟩ := l
  cases l with
  | closes b => exact closeBracket_rewrite
  | _ => rfl

theorem run_rewrite {ls : List (Position × Lexeme)} :
    (a.rewrite r).run (ls.map fun l => (r.place l.1, l.2.rewrite r)) = (a.run ls).rewrite r := by
  induction ls generalizing a with
  | nil => rfl
  | cons l ls ih =>
    have hs := ih (a := a.step l)
    rw [← step_rewrite] at hs
    exact hs

theorem closeAll_rewrite {frames : List Frame} :
    closeAll (frames.map (Frame.rewrite r)) (ns.map (Node.rewrite r)) =
      (closeAll frames ns).map (Node.rewrite r) := by
  induction frames generalizing ns with
  | nil => exact List.map_reverse.symm
  | cons f frames ih =>
    rw [closeAll, ← ih, List.map_cons, closeAll, List.map_cons, Opener.node_rewrite, List.map_reverse]
    rfl

theorem finish_rewrite : (a.rewrite r).finish = a.finish.map (Node.rewrite r) := closeAll_rewrite

end Assembly

theorem Node.ofLexemes_rewrite {ls : List (Position × Lexeme)} :
    Node.ofLexemes (ls.map fun l => (r.place l.1, l.2.rewrite r)) =
      (Node.ofLexemes ls).map (Node.rewrite r) := by
  rw [Node.ofLexemes, Node.ofLexemes, ← Assembly.finish_rewrite, ← Assembly.run_rewrite]
  rfl

theorem ValueScan.step_rewrite {v : ValueScan} : v.step (n.rewrite r) = v.step n := by
  simp only [ValueScan.step, Node.isDelimiter_rewrite, Node.isImportant_rewrite,
    Node.isSpace_rewrite, Node.isSome_curlyContent_rewrite]

theorem declarationValue_rewrite :
    declarationValue (ns.map (Node.rewrite r)) = (declarationValue ns).map (List.map (Node.rewrite r)) := by
  have hv : (ns.map (Node.rewrite r)).foldl ValueScan.step .start = ns.foldl ValueScan.step .start := by
    rw [List.foldl_map]
    simp only [ValueScan.step_rewrite]
  rw [declarationValue, declarationValue, hv]
  split
  · rfl
  · split
    · rw [← List.map_take]
      rfl
    · rfl

end ColorCensus.Css
