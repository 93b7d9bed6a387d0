import ColorCensus.Css.Node
import Mathlib.Data.List.Forall2

namespace ColorCensus.Css

variable {n : Node} {ns ms : List Node} {p : Position} {l : Lexeme}

def closing (b : Bracket) (closed : Bool) : List Lexeme := if closed then [.closes b] else []

namespace Node

mutual

def flatten : Node → List Lexeme
  | .token _ t => [.token t]
  | .function _ name arguments closed => .opensFunction name :: listFlatten arguments ++ closing .round closed
  | .block _ b content closed => .opens b :: listFlatten content ++ closing b closed

def listFlatten : List Node → List Lexeme
  | [] => []
  | n :: ns => n.flatten ++ listFlatten ns

end

theorem listFlatten_append : listFlatten (ns ++ ms) = listFlatten ns ++ listFlatten ms := by
  induction ns with
  | nil => rfl
  | cons n ns ih => rw [List.cons_append, listFlatten, ih, listFlatten, List.append_assoc]

theorem listFlatten_singleton : listFlatten [n] = n.flatten := by
  rw [listFlatten, listFlatten, List.append_nil]

end Node

def Opener.lexeme : Opener → Lexeme
  | .function name => .opensFunction name
  | .block b => .opens b

theorem Opener.flatten_node (o : Opener) (closed : Bool) :
    (o.node p ns closed).flatten = o.lexeme :: Node.listFlatten ns ++ closing o.bracket closed := by
  cases o with
  | function name => rfl
  | block b => rfl

inductive Stands : Lexeme → Lexeme → Prop where
  | same (l : Lexeme) : Stands l l
  | unmatched (b : Bracket) : Stands (.closes b) (.token (.fault (.unmatched b)))

namespace Assembly

def flattenUnder : List Frame → List Node → List Lexeme
  | [], nodes => Node.listFlatten nodes.reverse
  | f :: frames, nodes => flattenUnder frames f.before ++ f.opener.lexeme :: Node.listFlatten nodes.reverse

theorem flattenUnder_cons (frames : List Frame) (n : Node) (nodes : List Node) :
    flattenUnder frames (n :: nodes) = flattenUnder frames nodes ++ n.flatten := by
  cases frames <;>
    simp [flattenUnder, Node.listFlatten_append, Node.listFlatten_singleton]

def flatten (a : Assembly) : List Lexeme := flattenUnder a.frames a.nodes

theorem flatten_step (a : Assembly) (p : Position) (l : Lexeme) :
    ∃ l', Stands l l' ∧ (a.step (p, l)).flatten = a.flatten ++ [l'] := by
  have hadd (t : Token) : (a.add (.token p t)).flatten = a.flatten ++ [.token t] := flattenUnder_cons ..
  cases l with
  | token t => exact ⟨_, .same _, hadd t⟩
  | opensFunction name => exact ⟨_, .same _, rfl⟩
  | opens b => exact ⟨_, .same _, rfl⟩
  | closes b =>
    obtain ⟨nodes, frames⟩ := a
    cases frames with
    | nil => exact ⟨_, .unmatched b, hadd _⟩
    | cons f frames =>
      by_cases hb : f.opener.bracket = b
      · refine ⟨_, .same _, ?_⟩
        have hclose : (Assembly.mk nodes (f :: frames)).step (p, .closes b) =
            ⟨f.opener.node f.position nodes.reverse true :: f.before, frames⟩ := if_pos hb
        rw [hclose, flatten, flatten, flattenUnder_cons, Opener.flatten_node, hb, flattenUnder, List.append_assoc]
        rfl
      · have hfault : (Assembly.mk nodes (f :: frames)).step (p, .closes b) =
            (Assembly.mk nodes (f :: frames)).add (.token p (.fault (.unmatched b))) := if_neg hb
        exact ⟨_, .unmatched b, by rw [hfault, hadd]⟩

theorem flatten_run (ls : List (Position × Lexeme)) (a : Assembly) :
    ∃ ls', List.Forall₂ Stands (ls.map Prod.snd) ls' ∧ (a.run ls).flatten = a.flatten ++ ls' := by
  induction ls generalizing a with
  | nil => exact ⟨[], .nil, by rw [List.append_nil]; rfl⟩
  | cons l ls ih =>
    obtain ⟨l', hl, hstep⟩ := flatten_step a l.1 l.2
    obtain ⟨ls', hls, hrun⟩ := ih (a.step l)
    refine ⟨l' :: ls', .cons hl hls, ?_⟩
    change ((a.step l).run ls).flatten = _
    rw [hrun, hstep, List.append_assoc, List.singleton_append]

theorem flatten_closeAll (frames : List Frame) (nodes : List Node) :
    Node.listFlatten (closeAll frames nodes) = flattenUnder frames nodes := by
  induction frames generalizing nodes with
  | nil => rfl
  | cons f frames ih =>
    rw [closeAll, ih, flattenUnder_cons, Opener.flatten_node, flattenUnder]
    simp [closing]

end Assembly

theorem Node.stands_ofLexemes (ls : List (Position × Lexeme)) :
    List.Forall₂ Stands (ls.map Prod.snd) (Node.listFlatten (Node.ofLexemes ls)) := by
  obtain ⟨ls', hls, hrun⟩ := Assembly.flatten_run ls .empty
  rw [Node.ofLexemes, Assembly.finish, Assembly.flatten_closeAll]
  change List.Forall₂ Stands _ (Assembly.empty.run ls).flatten
  rwa [hrun]

end ColorCensus.Css
