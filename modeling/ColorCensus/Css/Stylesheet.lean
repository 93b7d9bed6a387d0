import ColorCensus.Css.Braces
import ColorCensus.Css.Printer
import ColorCensus.Css.Rule

namespace ColorCensus.Css

open Text

inductive SyntaxFault where
  | braces (imbalance : Imbalance)
  | noSelector (position : Position)
  | broken (position : Position) (fault : RuleFault)
  deriving DecidableEq, Repr

def Imbalance.message : Imbalance → Text
  | .unexpected => "unexpected '\x7d'"
  | .missing => "missing '\x7d'"

def RuleFault.message : RuleFault → Text
  | .noBlock => "EOF reached before \x7b\x7d block for a qualified rule."
  | .stopped => "Stop token reached before \x7b\x7d block for a qualified rule."

namespace SyntaxFault

def position? : SyntaxFault → Option Position
  | braces _ => none
  | noSelector p => some p
  | broken p _ => some p

def reason : SyntaxFault → Text
  | braces i => i.message
  | noSelector _ => "selector missing"
  | broken _ f => f.message

def place (source : Option Text) (f : SyntaxFault) : Text :=
  let name := match source with
    | some (c :: s) => c :: s
    | _ => (Text.ofString "<string>")
  match f.position? with
  | some p => name ++ ":" ++ natural p.line ++ ":" ++ natural p.column
  | none => name

def message (source : Option Text) (f : SyntaxFault) : Text :=
  "Cannot parse " ++ f.place source ++ ": " ++ f.reason

end SyntaxFault

def Rule.fault? : Rule → Option SyntaxFault
  | .atRule .. => none
  | .style p prelude _ =>
    if strip (Node.listText prelude) = [] then some (.noSelector p) else none
  | .broken p f => some (.broken p f)

def Rule.position : Rule → Position
  | .atRule p .. => p
  | .style p .. => p
  | .broken p _ => p

def parse (s : Text) : Except SyntaxFault (List Rule) :=
  match imbalance s with
  | some i => .error (.braces i)
  | none =>
    match (Rule.readAll (Node.read s)).findSome? Rule.fault? with
    | some f => .error f
    | none => .ok (Rule.readAll (Node.read s))

structure Declaration where
  property : Text
  value : Text
  deriving DecidableEq, Repr

structure Extraction where
  declarations : List Declaration
  fault : Option SyntaxFault
  deriving DecidableEq, Repr

namespace Extraction

def empty : Extraction := ⟨[], none⟩

def andThen (x y : Extraction) : Extraction :=
  match x.fault with
  | some _ => x
  | none => ⟨x.declarations ++ y.declarations, y.fault⟩

theorem empty_andThen (x : Extraction) : empty.andThen x = x := rfl

theorem andThen_empty (x : Extraction) : x.andThen empty = x := by
  obtain ⟨ds, f⟩ := x
  cases f <;> simp [andThen, empty]

theorem andThen_assoc (x y z : Extraction) : (x.andThen y).andThen z = x.andThen (y.andThen z) := by
  obtain ⟨ds, f⟩ := x
  obtain ⟨es, g⟩ := y
  cases f <;> cases g <;> simp [andThen]

def concat (xs : List Extraction) : Extraction := xs.foldr andThen empty

theorem concat_append (xs ys : List Extraction) :
    concat (xs ++ ys) = (concat xs).andThen (concat ys) := by
  induction xs with
  | nil => rfl
  | cons x xs ih =>
    simp only [concat, List.cons_append, List.foldr_cons] at ih ⊢
    rw [ih, andThen_assoc]

end Extraction

def valueText (value : List Node) : Text := lower (strip (Node.listText value))

def Item.extract (properties : List Text) : Item → Extraction
  | .declaration name value =>
    if properties.contains name then ⟨[⟨name, valueText value⟩], none⟩ else .empty
  | .broken p f => ⟨[], some (.broken p f)⟩
  | _ => .empty

def Rule.extract (properties : List Text) : Rule → Extraction
  | .style _ _ content => .concat ((Item.readAll content).map (Item.extract properties))
  | _ => .empty

def extract (properties : List Text) (rules : List Rule) : Extraction :=
  .concat (rules.map (Rule.extract properties))

theorem extract_append (properties : List Text) (xs ys : List Rule) :
    extract properties (xs ++ ys) = (extract properties xs).andThen (extract properties ys) := by
  rw [extract, List.map_append, Extraction.concat_append]
  rfl

end ColorCensus.Css
