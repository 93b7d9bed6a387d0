import ColorCensus.Text.Digit
import ColorCensus.Text.Split
import ColorCensus.Text.Word

namespace ColorCensus.Candidate

open Text

def functionHeads : List Text := ["rgba(", "hsla(", "rgb(", "hsl("]

def argumentsLength (s : Text) : Nat :=
  match s.findIdx? (· = CodePoint.char ')') with
  | some (n + 1) => n + 2
  | _ => 0

def functionLength (s : Text) : Nat :=
  match functionHeads.find? (startsWith · s) with
  | some head =>
    match argumentsLength (s.drop head.length) with
    | 0 => 0
    | n => head.length + n
  | none => 0

def digitsTaken (run : Nat) : Nat :=
  if 8 ≤ run then 8 else if 6 ≤ run then 6 else if 4 ≤ run then 4 else if run = 3 then 3 else 0

def hashLength : Text → Nat
  | '#' :: s =>
    let taken := digitsTaken (s.takeWhile isHex).length
    if taken = 0 then 0 else taken + 1
  | _ => 0

def wordLength (previous : Option CodePoint) (s : Text) : Nat :=
  if previous.any isWord then 0
  else
    match s.dropWhile CodePoint.isAlpha with
    | c :: _ => if isWord c || c == '-' then 0 else (s.takeWhile CodePoint.isAlpha).length
    | [] => (s.takeWhile CodePoint.isAlpha).length

def length (previous : Option CodePoint) (s : Text) : Nat :=
  match functionLength s with
  | 0 =>
    match hashLength s with
    | 0 => wordLength previous s
    | n => n
  | n => n

def boundary : CodePoint := '\x00'

def marked (previous : Option CodePoint) (s : Text) : Text :=
  match s with
  | [] => []
  | c :: t =>
    if length previous (c :: t) = 0 then c :: marked (some c) t
    else
      boundary :: (c :: t).take (length previous (c :: t)) ++ boundary ::
        marked ((c :: t).take (length previous (c :: t))).getLast?
          ((c :: t).drop (length previous (c :: t)))
termination_by s.length
decreasing_by
  · simp
  · simp only [List.length_drop, List.length_cons]
    omega

def segments (value : Text) : List Text := split boundary (marked none (value.filter (· ≠ boundary)))

def odds : List α → List α
  | _ :: x :: xs => x :: odds xs
  | _ => []

def tokens (value : Text) : List Text := odds (segments value)

theorem marked_nil (previous : Option CodePoint) : marked previous [] = [] := by rw [marked]

end ColorCensus.Candidate
