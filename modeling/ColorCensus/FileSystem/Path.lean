import ColorCensus.Text.Split

namespace ColorCensus.Path

open Text

def names (path : Text) : List Text := split '/' path

theorem names_ne_nil (path : Text) : names path ≠ [] := split_ne_nil '/' path

def here : Text := ['.']

def above : Text := ['.', '.']

def isAbsolute : List Text → Bool
  | [] :: _ :: _ => true
  | _ => false

def steps (path : Text) : List Text := (names path).filter fun name => name ≠ [] ∧ name ≠ here

def root (path : Text) : Text :=
  match path with
  | '/' :: '/' :: '/' :: _ => ['/']
  | '/' :: '/' :: _ => ['/', '/']
  | '/' :: _ => ['/']
  | _ => []

def ofSteps (root : Text) (steps : List Text) : Text :=
  match root ++ join ['/'] steps with
  | [] => here
  | s => s

theorem ofSteps_ne_nil (root : Text) (steps : List Text) : ofSteps root steps ≠ [] := by
  rw [ofSteps]
  split
  · simp [here]
  · assumption

def normal (path : Text) : Text := ofSteps (root path) (steps path)

theorem normal_ne_nil (path : Text) : normal path ≠ [] := ofSteps_ne_nil _ _

def name (path : Text) : Text := (steps path).getLast?.getD []

def child (directory name : Text) : Text :=
  if endsWith ['/'] directory then directory ++ name else directory ++ "/" ++ name

structure Cut where
  before : List Text
  last : Text
  slashed : Bool
  deriving DecidableEq, Repr

def Cut.ofNames (names : List Text) : Cut :=
  match names.reverse.dropWhile (· = []) with
  | [] => ⟨[], [], false⟩
  | last :: before => ⟨before.reverse, last, names.getLast? = some []⟩

end ColorCensus.Path
