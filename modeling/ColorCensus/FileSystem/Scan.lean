import ColorCensus.FileSystem.Walk

namespace ColorCensus.FileSystem

open Text

def scan (fs : FileSystem) (path : Text) : Except PathFault (List Text) :=
  match fs.resolve path with
  | .error cause => .error ⟨cause, path⟩
  | .ok p =>
    if fs.isDirectory p.location then .ok (fs.list p.location) else .error ⟨.notDirectory, path⟩

structure Search where
  pending : List Text
  found : List Text
  deriving DecidableEq, Repr

namespace Search

def visit (fs : FileSystem) (ending directory : Text) (s : Search) (name : Text) :
    Except PathFault Search :=
  let path := Path.child directory name
  match fs.resolve path with
  | .error cause => .error ⟨cause, path⟩
  | .ok p =>
    if fs.isDirectory p.location then .ok { s with pending := path :: s.pending }
    else if isStylesheet ending name then .ok { s with found := s.found ++ [Path.normal path] }
    else .ok s

def step (fs : FileSystem) (ending directory : Text) (s : Search) : Except PathFault Search :=
  (fs.scan directory).bind fun names => names.foldlM (visit fs ending directory) s

inductive Ends (fs : FileSystem) (ending : Text) : Search → Except PathFault (List Text) → Prop where
  | done (found : List Text) : Ends fs ending ⟨[], found⟩ (.ok found)
  | fault {directory : Text} {pending found : List Text} {f : PathFault}
    (h : step fs ending directory ⟨pending, found⟩ = .error f) :
    Ends fs ending ⟨directory :: pending, found⟩ (.error f)
  | next {directory : Text} {pending found : List Text} {s : Search} {result : Except PathFault (List Text)}
    (h : step fs ending directory ⟨pending, found⟩ = .ok s) (hs : Ends fs ending s result) :
    Ends fs ending ⟨directory :: pending, found⟩ result

end Search

end ColorCensus.FileSystem
