import ColorCensus.Json.Value
import ColorCensus.Table
import ColorCensus.Tally

namespace ColorCensus

open Text

structure Report where
  fileCount : Int
  counts : List (Text × Int)
  deriving DecidableEq, Repr

namespace Report

def put (color : Text) (n : Int) : List (Text × Int) → List (Text × Int)
  | [] => [(color, n)]
  | (c, m) :: counts => if c = color then (c, n) :: counts else (c, m) :: put color n counts

def ofEntries (fileCount : Int) (entries : List (Text × Int)) : Report :=
  ⟨fileCount, entries.foldl (fun counts e => put e.1 e.2 counts) []⟩

def ofTally (fileCount : Int) (t : Tally) : Report :=
  ⟨fileCount, t.counts.map fun e => (e.1, (e.2 : Int))⟩

def uniqueCount (r : Report) : Nat := r.counts.length

def total (r : Report) : Int := r.counts.foldr (fun e n => e.2 + n) 0

theorem uniqueCount_ofTally (fileCount : Int) (t : Tally) :
    (ofTally fileCount t).uniqueCount = t.size := by
  simp [ofTally, uniqueCount, Tally.size]

def rows (r : Report) : List (Text × Int) := r.counts.mergeSort fun a b => decide (b.2 ≤ a.2)

theorem rows_perm (r : Report) : r.rows.Perm r.counts := List.mergeSort_perm ..

theorem rows_length (r : Report) : r.rows.length = r.uniqueCount := r.rows_perm.length_eq

def columns : List Text := ["(index)", "Color Values", "Occurrences"]

def cells (rows : List (Text × Int)) : List (List Text) :=
  rows.mapIdx fun i row => [natural i, row.1, integer row.2]

theorem cells_length (rows : List (Text × Int)) : (cells rows).length = rows.length := by
  simp [cells]

def table (rows : List (Text × Int)) : Text := Table.text columns (cells rows)

def title : Text := "CSS Color Value Inventory"

def summary (r : Report) : Text :=
  title ++ "\n\n# of CSS files: " ++ integer r.fileCount ++ "\n# of unique color values: " ++
    natural r.uniqueCount ++ "\n"

def text (r : Report) : Text := r.summary ++ "\n" ++ table r.rows

def rowJson (row : Text × Int) : Json.Value :=
  .object [("color", .string row.1), ("occurrences", .integer row.2)]

def json (r : Report) : Json.Value :=
  .object [("file_count", .integer r.fileCount), ("unique_color_count", .integer r.uniqueCount),
    ("colors", .array (r.rows.map rowJson))]

def printed (r : Report) (asJson : Bool) : Text :=
  (if asJson then r.json.text else r.text) ++ "\n"

def numbers (rows : List (Text × Int)) : List Int := (rows.mapIdx fun i row => [(i : Int), row.2]).flatten

def writeTable (limit : DigitLimit) (rows : List (Text × Int)) : Except TooManyDigits Text :=
  (limit.check (numbers rows)).map fun _ => table rows

def write (limit : DigitLimit) (r : Report) (asJson : Bool) : Except TooManyDigits Text :=
  let inRows := if asJson then r.rows.map Prod.snd else numbers r.rows
  (limit.check (r.fileCount :: r.uniqueCount :: inRows)).map fun _ => r.printed asJson

end Report

end ColorCensus
