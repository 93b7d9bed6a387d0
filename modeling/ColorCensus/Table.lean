import ColorCensus.Text.Basic

namespace ColorCensus.Table

open Text

def widen (widths : List Nat) (cells : List Text) : List Nat :=
  widths.zipWith max (cells.map List.length)

def widths (header : List Text) (body : List (List Text)) : List Nat :=
  body.foldl widen (header.map List.length)

def border (left middle right : CodePoint) (widths : List Nat) : Text :=
  left :: join [middle] (widths.map fun w => copies (w + 2) '─') ++ [right]

def cell (width : Nat) (s : Text) : Text := " " ++ padRight width s ++ " "

def line (widths : List Nat) (cells : List Text) : Text :=
  "│" ++ join "│" (widths.zipWith cell cells) ++ "│"

def lines (header : List Text) (body : List (List Text)) : List Text :=
  let ws := widths header body
  [border '┌' '┬' '┐' ws, line ws header, border '├' '┼' '┤' ws] ++ body.map (line ws) ++
    [border '└' '┴' '┘' ws]

theorem lines_length (header : List Text) (body : List (List Text)) :
    (lines header body).length = body.length + 4 := by
  simp [lines]

def text (header : List Text) (body : List (List Text)) : Text := join ['\n'] (lines header body)

end ColorCensus.Table
