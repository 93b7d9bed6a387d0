import ColorCensus.Css.Lexer

namespace ColorCensus.Css

inductive Node where
  | token (position : Position) (token : Token)
  | function (position : Position) (name : Text) (arguments : List Node) (closed : Bool)
  | block (position : Position) (bracket : Bracket) (content : List Node) (closed : Bool)

inductive Opener where
  | function (name : Text)
  | block (bracket : Bracket)

def Opener.bracket : Opener → Bracket
  | .function _ => .round
  | .block b => b

def Opener.node (p : Position) (content : List Node) (closed : Bool) : Opener → Node
  | .function name => .function p name content closed
  | .block b => .block p b content closed

namespace Node

def position : Node → Position
  | token p _ => p
  | function p _ _ _ => p
  | block p _ _ _ => p

def isSpace : Node → Bool
  | token _ t => t.isSpace
  | _ => false

def isDelimiter (text : Text) : Node → Bool
  | token _ t => t.isDelimiter text
  | _ => false

def curlyContent : Node → Option (List Node)
  | block _ .curly content _ => some content
  | _ => none

end Node

structure Frame where
  position : Position
  opener : Opener
  before : List Node

structure Assembly where
  nodes : List Node
  frames : List Frame

namespace Assembly

def empty : Assembly := ⟨[], []⟩

def add (a : Assembly) (n : Node) : Assembly := ⟨n :: a.nodes, a.frames⟩

def enter (a : Assembly) (p : Position) (opener : Opener) : Assembly :=
  ⟨[], ⟨p, opener, a.nodes⟩ :: a.frames⟩

def closeBracket (a : Assembly) (p : Position) (b : Bracket) : Assembly :=
  match a.frames with
  | f :: frames =>
    if f.opener.bracket = b then
      ⟨f.opener.node f.position a.nodes.reverse true :: f.before, frames⟩
    else a.add (.token p (.fault (.unmatched b)))
  | [] => a.add (.token p (.fault (.unmatched b)))

def step (a : Assembly) (l : Position × Lexeme) : Assembly :=
  match l.2 with
  | .token t => a.add (.token l.1 t)
  | .opensFunction name => a.enter l.1 (.function name)
  | .opens b => a.enter l.1 (.block b)
  | .closes b => a.closeBracket l.1 b

def closeAll : List Frame → List Node → List Node
  | [], nodes => nodes.reverse
  | f :: frames, nodes =>
    closeAll frames (f.opener.node f.position nodes.reverse false :: f.before)

def run (a : Assembly) (lexemes : List (Position × Lexeme)) : Assembly := lexemes.foldl step a

theorem run_append (a : Assembly) (xs ys : List (Position × Lexeme)) :
    a.run (xs ++ ys) = (a.run xs).run ys := List.foldl_append ..

def finish (a : Assembly) : List Node := closeAll a.frames a.nodes

theorem finish_empty : empty.finish = [] := rfl

end Assembly

def Node.ofLexemes (lexemes : List (Position × Lexeme)) : List Node :=
  (Assembly.empty.run lexemes).finish

def Node.read (s : Text) : List Node := Node.ofLexemes (lexemes s)

end ColorCensus.Css
