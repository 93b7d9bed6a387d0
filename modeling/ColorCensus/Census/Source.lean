import ColorCensus.AllowList
import ColorCensus.Css.Stylesheet
import ColorCensus.FileSystem.Walk
import ColorCensus.Text.Newline

namespace ColorCensus.Census

open Text Css

inductive Fault where
  | allowList (fault : AllowList.Fault)
  | path (fault : FileSystem.PathFault)
  | undecodable (fault : Utf8.Fault)
  | stylesheet (source : Text) (fault : SyntaxFault)
  deriving DecidableEq, Repr

def Fault.message : Fault → Text
  | allowList f => f.message
  | path f => f.message
  | undecodable f => f.message
  | stylesheet source f => f.message (some source)

def textOf (content : List UInt8) : Except Fault Text :=
  match Utf8.decode content with
  | .ok s => .ok (unifyNewlines s)
  | .error f => .error (.undecodable f)

def declarationsIn (properties : List Text) (source text : Text) :
    Except Fault (List Declaration) :=
  match parse text with
  | .error f => .error (.stylesheet source f)
  | .ok rules =>
    match (extract properties rules).fault with
    | some f => .error (.stylesheet source f)
    | none => .ok (extract properties rules).declarations

def declarationsOf (properties : List Text) (source : Text) (content : List UInt8) :
    Except Fault (List Declaration) :=
  (textOf content).bind (declarationsIn properties source)

theorem declarationsOf_of_error {properties : List Text} {source : Text} {content : List UInt8}
    {f : Fault} (h : textOf content = .error f) :
    declarationsOf properties source content = .error f := by
  rw [declarationsOf, h]
  rfl

def contentAt (fs : FileSystem) (path : Text) : Except Fault (List UInt8) :=
  (fs.readFile path).mapError Fault.path

def readText (fs : FileSystem) (path : Text) : Except Fault Text :=
  (contentAt fs path).bind textOf

def readDeclarations (fs : FileSystem) (properties : List Text) (path : Text) :
    Except Fault (List Declaration) :=
  (contentAt fs path).bind (declarationsOf properties path)

end ColorCensus.Census
