import ColorCensus.Css.Node

namespace ColorCensus.Css

variable {ns ms : List Node} {n : Node} {frames : List Frame} {a : Assembly} {p : Position}
  {l : Lexeme} {ls : List (Position × Lexeme)}

def Node.beginning : Node → Position × Lexeme
  | .token p t => (p, .token t)
  | .function p name _ _ => (p, .opensFunction name)
  | .block p b _ _ => (p, .opens b)

def Node.outline (ns : List Node) : List (Position × Lexeme) := ns.map Node.beginning

theorem Opener.beginning_node {o : Opener} {closed closed' : Bool} :
    (o.node p ns closed).beginning = (o.node p ms closed').beginning := by
  cases o <;> rfl

namespace Assembly

theorem outline_closeAll (h : Node.outline ns = Node.outline ms) :
    Node.outline (closeAll frames ns) = Node.outline (closeAll frames ms) := by
  induction frames generalizing ns ms with
  | nil =>
    rw [Node.outline, Node.outline] at h ⊢
    rw [closeAll, closeAll, List.map_reverse, List.map_reverse, h]
  | cons f frames ih =>
    rw [closeAll, closeAll]
    apply ih
    exact congrArg (· :: Node.outline f.before) Opener.beginning_node

theorem outline_closeAll_node {o : Opener} {before : List Node} {closed closed' : Bool} :
    Node.outline (closeAll frames (o.node p ns closed :: before)) =
      Node.outline (closeAll frames (o.node p ms closed' :: before)) := by
  apply outline_closeAll
  exact congrArg (· :: Node.outline before) Opener.beginning_node

theorem outline_add : ∃ xs, Node.outline (a.add n).finish = Node.outline a.finish ++ xs ∧
    ∀ x ∈ xs, x = n.beginning := by
  obtain ⟨nodes, frames⟩ := a
  cases frames with
  | nil =>
    refine ⟨[n.beginning], ?_, fun x hx => List.mem_singleton.mp hx⟩
    simp [Node.outline, finish, add, closeAll]
  | cons f frames =>
    have he : Node.outline (closeAll (f :: frames) (n :: nodes)) =
        Node.outline (closeAll (f :: frames) nodes) := outline_closeAll_node
    exact ⟨[], by rw [List.append_nil]; exact he, by simp⟩

def IsUnmatched (x : Position × Lexeme) : Prop := ∃ b, x.2 = .token (.fault (.unmatched b))

theorem outline_closeBracket {b : Bracket} : ∃ xs, Node.outline (a.closeBracket p b).finish =
    Node.outline a.finish ++ xs ∧ ∀ x ∈ xs, IsUnmatched x := by
  have hadd : ∃ xs, Node.outline (a.add (.token p (.fault (.unmatched b)))).finish =
      Node.outline a.finish ++ xs ∧ ∀ x ∈ xs, IsUnmatched x := by
    obtain ⟨xs, hxs, hx⟩ := outline_add (a := a) (n := .token p (.fault (.unmatched b)))
    exact ⟨xs, hxs, fun x hm => ⟨b, by rw [hx x hm]; rfl⟩⟩
  obtain ⟨nodes, frames⟩ := a
  cases frames with
  | nil => exact hadd
  | cons f frames =>
    rw [closeBracket]
    dsimp only
    split
    · have he : Node.outline (closeAll frames (f.opener.node f.position nodes.reverse true :: f.before)) =
          Node.outline (closeAll (f :: frames) nodes) := outline_closeAll_node
      exact ⟨[], by rw [List.append_nil]; exact he, by simp⟩
    · exact hadd

theorem outline_step : ∃ xs, Node.outline (a.step (p, l)).finish = Node.outline a.finish ++ xs ∧
    ∀ x ∈ xs, x = (p, l) ∨ IsUnmatched x := by
  have hadd (n : Node) : ∃ xs, Node.outline (a.add n).finish = Node.outline a.finish ++ xs ∧
      ∀ x ∈ xs, x = n.beginning ∨ IsUnmatched x := by
    obtain ⟨xs, hxs, hx⟩ := outline_add (a := a) (n := n)
    exact ⟨xs, hxs, fun x hm => .inl (hx x hm)⟩
  cases l with
  | token t => exact hadd _
  | opensFunction name => exact hadd (Opener.node p [] false (.function name))
  | opens b => exact hadd (Opener.node p [] false (.block b))
  | closes b =>
    obtain ⟨xs, hxs, hx⟩ := outline_closeBracket (a := a) (p := p) (b := b)
    exact ⟨xs, hxs, fun x hm => .inr (hx x hm)⟩

theorem outline_run : ∃ xs, Node.outline (a.run ls).finish = Node.outline a.finish ++ xs ∧
    ∀ x ∈ xs, x ∈ ls ∨ IsUnmatched x := by
  induction ls generalizing a with
  | nil => exact ⟨[], (List.append_nil _).symm, by simp⟩
  | cons l ls ih =>
    obtain ⟨xs, hxs, hx⟩ := outline_step (a := a) (p := l.1) (l := l.2)
    obtain ⟨ys, hys, hy⟩ := ih (a := a.step l)
    refine ⟨xs ++ ys, ?_, List.forall_mem_append.mpr ⟨fun x hm => ?_, fun y hm => ?_⟩⟩
    · rw [← List.append_assoc, ← hxs]
      exact hys
    · rcases hx x hm with rfl | h
      · exact .inl (List.mem_cons_self ..)
      · exact .inr h
    · exact (hy y hm).imp (List.mem_cons_of_mem l) id

end Assembly

theorem Node.beginning_mem_of_mem_ofLexemes (h : n ∈ Node.ofLexemes ls) :
    n.beginning ∈ ls ∨ Assembly.IsUnmatched n.beginning := by
  obtain ⟨xs, hxs, hx⟩ : ∃ xs, Node.outline (Assembly.empty.run ls).finish = Node.outline Assembly.empty.finish ++ xs ∧
      ∀ x ∈ xs, x ∈ ls ∨ Assembly.IsUnmatched x := Assembly.outline_run
  have hn : n.beginning ∈ Node.outline (Assembly.empty.run ls).finish := List.mem_map_of_mem h
  rw [hxs] at hn
  exact hx _ hn

theorem Node.outline_ofLexemes (h : ∀ b, l ≠ .closes b) :
    ∃ n ns, Node.ofLexemes ((p, l) :: ls) = n :: ns ∧ n.beginning = (p, l) := by
  have hfirst : Node.outline (Assembly.empty.step (p, l)).finish = [(p, l)] := by
    cases l with
    | closes b => exact absurd rfl (h b)
    | _ => rfl
  obtain ⟨rest, hrest, -⟩ : ∃ rest, Node.outline ((Assembly.empty.step (p, l)).run ls).finish =
      Node.outline (Assembly.empty.step (p, l)).finish ++ rest ∧ ∀ x ∈ rest, x ∈ ls ∨ Assembly.IsUnmatched x :=
    Assembly.outline_run
  rw [hfirst] at hrest
  obtain ⟨n, ns, hn, hb, -⟩ := List.map_eq_cons_iff.mp hrest
  exact ⟨n, ns, hn, hb⟩

end ColorCensus.Css
