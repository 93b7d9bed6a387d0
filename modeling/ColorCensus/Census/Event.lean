import ColorCensus.FileSystem.Path
import ColorCensus.Tally
import ColorCensus.Text.Printable
import ColorCensus.Trace

namespace ColorCensus.Census

open Text

inductive Event where
  | walked (count : Nat) (root : Text)
  | extracted (path : Text) (count : Nat)
  | cut (value : Text) (tokens : List Text)
  | rejected (token : Text)
  deriving DecidableEq, Repr

namespace Event

def topic : Event → Text
  | walked .. => "scan"
  | extracted .. => "extract"
  | cut .. => "token"
  | rejected _ => "color"

def message : Event → Text
  | walked count root => natural count ++ " stylesheet(s) under " ++ root
  | extracted path count => Path.name path ++ ": " ++ natural count ++ " themable declaration(s)"
  | cut value tokens => quoted value ++ " -> " ++ quotedList tokens
  | rejected token => "not a color: " ++ quoted token

def written (topics : Topics) (stamp : Text) (e : Event) : Text :=
  Trace.written topics stamp e.topic Trace.defaultLevel e.message

def ofValue (value : Text) : List Event :=
  let tokens := Candidate.tokens value
  cut value tokens :: (tokens.filter fun t => (Color.canonical? t).isNone).map rejected

end Event

def traceText (topics : Topics) (stamp : Text) (events : List Event) : Text :=
  events.flatMap (Event.written topics stamp)

theorem traceText_append (topics : Topics) (stamp : Text) (xs ys : List Event) :
    traceText topics stamp (xs ++ ys) = traceText topics stamp xs ++ traceText topics stamp ys := by
  simp [traceText]

end ColorCensus.Census
