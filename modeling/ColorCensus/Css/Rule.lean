import ColorCensus.Css.Node

namespace ColorCensus.Css

inductive RuleFault where
  | noBlock
  | stopped
  deriving DecidableEq, Repr

inductive Rule where
  | atRule (position : Position) (keyword : Text) (prelude : List Node)
      (block : Option (List Node))
  | style (position : Position) (prelude : List Node) (content : List Node)
  | broken (position : Position) (fault : RuleFault)

def splitBlock : List Node → List Node × Option (List Node × List Node)
  | [] => ([], none)
  | n :: ns =>
    match n.curlyContent with
    | some content => ([], some (content, ns))
    | none =>
      let split := splitBlock ns
      (n :: split.1, split.2)

theorem splitBlock_rest_length_lt {ns : List Node} {content rest : List Node}
    (h : (splitBlock ns).2 = some (content, rest)) : rest.length < ns.length := by
  induction ns with
  | nil => simp [splitBlock] at h
  | cons n ns ih =>
    simp only [splitBlock] at h
    split at h
    · obtain ⟨rfl, rfl⟩ := h
      exact Nat.lt_succ_self _
    · exact Nat.lt_succ_of_lt (ih h)

def splitAtRule : List Node → List Node × Option (List Node) × List Node
  | [] => ([], none, [])
  | n :: ns =>
    match n.curlyContent with
    | some content => ([], some content, ns)
    | none =>
      if n.isDelimiter [';'] then ([], none, ns)
      else
        let split := splitAtRule ns
        (n :: split.1, split.2)

theorem splitAtRule_rest_length_le (ns : List Node) :
    (splitAtRule ns).2.2.length ≤ ns.length := by
  induction ns with
  | nil => exact Nat.le_refl _
  | cons n ns ih =>
    simp only [splitAtRule]
    split
    · exact Nat.le_succ _
    · split
      · exact Nat.le_succ _
      · exact Nat.le_trans ih (Nat.le_succ _)

def Rule.readStyle (first : Node) (rest : List Node) : Rule × List Node :=
  match splitBlock (first :: rest) with
  | (prelude, some (content, after)) => (.style first.position prelude content, after)
  | (prelude, none) => (.broken ((prelude.getLast?.getD first).position) .noBlock, [])

theorem Rule.readStyle_rest_length_le (first : Node) (rest : List Node) :
    (Rule.readStyle first rest).2.length ≤ rest.length := by
  unfold Rule.readStyle
  split
  · next prelude content after h =>
    exact Nat.le_of_lt_succ (splitBlock_rest_length_lt (congrArg Prod.snd h))
  · exact Nat.zero_le _

def Node.isBetweenRules (n : Node) : Bool :=
  n.isSpace || n.isDelimiter "<!--" || n.isDelimiter "-->"

def Rule.readAll : List Node → List Rule
  | [] => []
  | n :: ns =>
    if n.isBetweenRules then Rule.readAll ns
    else
      match n with
      | .token p (.atKeyword keyword) =>
        have := splitAtRule_rest_length_le ns
        .atRule p keyword (splitAtRule ns).1 (splitAtRule ns).2.1 ::
          Rule.readAll (splitAtRule ns).2.2
      | n =>
        have := Rule.readStyle_rest_length_le n ns
        (Rule.readStyle n ns).1 :: Rule.readAll (Rule.readStyle n ns).2
termination_by ns => ns.length
decreasing_by all_goals simp_all only [List.length_cons]; omega

inductive Item where
  | declaration (name : Text) (value : List Node)
  | atRule (keyword : Text)
  | nested
  | broken (position : Position) (fault : RuleFault)

inductive Importance where
  | value
  | bang
  | important
  deriving DecidableEq, Repr

structure ValueScan where
  state : Importance
  kept : Nat
  seen : Nat
  filled : Bool
  mixed : Bool

def ValueScan.start : ValueScan := ⟨.value, 0, 0, false, false⟩

def Node.isImportant : Node → Bool
  | .token _ (.ident name) => Text.asciiLower name == "important"
  | _ => false

def ValueScan.step (v : ValueScan) (n : Node) : ValueScan :=
  if v.state = .value ∧ n.isDelimiter ['!'] then
    { v with state := .bang, kept := v.seen, seen := v.seen + 1 }
  else if v.state = .bang ∧ n.isImportant then { v with state := .important, seen := v.seen + 1 }
  else if n.isSpace then { v with seen := v.seen + 1 }
  else
    { v with state := .value, seen := v.seen + 1, filled := true,
             mixed := v.mixed || (v.filled && n.curlyContent.isSome) }

def declarationValue (nodes : List Node) : Option (List Node) :=
  let v := nodes.foldl ValueScan.step .start
  if v.mixed then none
  else if v.state = .important then some (nodes.take v.kept)
  else some nodes

def splitDeclaration : List Node → List Node × Option Node × List Node
  | [] => ([], none, [])
  | n :: ns =>
    if n.isDelimiter [';'] then ([], some n, ns)
    else if n.curlyContent.isSome then ([n], none, ns)
    else
      let split := splitDeclaration ns
      (n :: split.1, split.2)

theorem splitDeclaration_rest_length_le (ns : List Node) :
    (splitDeclaration ns).2.2.length ≤ ns.length := by
  induction ns with
  | nil => exact Nat.le_refl _
  | cons n ns ih =>
    simp only [splitDeclaration]
    split
    · exact Nat.le_succ _
    · split
      · exact Nat.le_succ _
      · exact Nat.le_trans ih (Nat.le_succ _)

def Item.declaration? (first : Node) (rest : List Node) : Option Item :=
  match first, rest.dropWhile Node.isSpace with
  | .token _ (.ident name), n :: value =>
    if n.isDelimiter [':'] then (declarationValue value).map (.declaration name) else none
  | _, _ => none

def Item.nested? (first : Node) (rest : List Node) (stop : Option Node) : Item :=
  match (splitBlock (first :: rest)).2, stop with
  | some _, _ => .nested
  | none, some n => .broken n.position .stopped
  | none, none => .broken (((first :: rest).getLast?.getD first).position) .noBlock

def Node.isBetweenItems (n : Node) : Bool := n.isSpace || n.isDelimiter [';']

def Item.readAll : List Node → List Item
  | [] => []
  | n :: ns =>
    if n.isBetweenItems then Item.readAll ns
    else
      match n with
      | .token _ (.atKeyword keyword) =>
        have := splitAtRule_rest_length_le ns
        .atRule keyword :: Item.readAll (splitAtRule ns).2.2
      | n =>
        if n.curlyContent.isSome then .nested :: Item.readAll ns
        else
          have := splitDeclaration_rest_length_le ns
          let split := splitDeclaration ns
          (match Item.declaration? n split.1 with
            | some item => item
            | none => Item.nested? n split.1 split.2.1) :: Item.readAll split.2.2
termination_by ns => ns.length
decreasing_by all_goals simp_all only [List.length_cons]; omega

end ColorCensus.Css
