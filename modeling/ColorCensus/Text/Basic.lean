import ColorCensus.Text.CodePoint

namespace ColorCensus

abbrev Text := List CodePoint

namespace Text

def ofString (s : String) : Text := s.toList.map .char

instance : Coe String Text := ⟨ofString⟩

def same : Text → Text → Bool
  | [], [] => true
  | c :: s, d :: t => if c = d then same s t else false
  | _, _ => false

theorem same_iff {s t : Text} : same s t = true ↔ s = t := by
  induction s generalizing t with
  | nil => cases t <;> simp [same]
  | cons c s ih =>
    cases t with
    | nil => simp [same]
    | cons d t => by_cases h : c = d <;> simp [same, h, ih]

instance : DecidableEq Text := fun s t =>
  if h : same s t then isTrue (same_iff.mp h) else isFalse fun e => h (same_iff.mpr e)

instance : BEq Text := instBEqOfDecidableEq

def asString (s : Text) : String := String.ofList (s.map CodePoint.toChar)

abbrev Ranges := List (Nat × Nat)

def Ranges.holds (ranges : Ranges) (c : CodePoint) : Bool :=
  ranges.any fun range => range.1 ≤ c.toNat && c.toNat ≤ range.2

theorem Ranges.holds_append (xs ys : Ranges) (c : CodePoint) :
    Ranges.holds (xs ++ ys) c = (xs.holds c || ys.holds c) := by
  simp [Ranges.holds, List.any_append]

def isAscii (c : CodePoint) : Bool := c.toNat < 128

def natural (n : Nat) : Text := (Nat.toDigits 10 n).map .char

def integer : Int → Text
  | .ofNat n => natural n
  | .negSucc n => '-' :: natural (n + 1)

def join (separator : Text) (parts : List Text) : Text := separator.intercalate parts

def copies (n : Nat) (c : CodePoint) : Text := List.replicate n c

def padRight (width : Nat) (s : Text) : Text := s ++ copies (width - s.length) ' '

def padLeft (width : Nat) (fill : CodePoint) (s : Text) : Text :=
  copies (width - s.length) fill ++ s

def dropTrailing (p : CodePoint → Bool) (s : Text) : Text := (s.reverse.dropWhile p).reverse

theorem dropTrailing_append (p : CodePoint → Bool) (s : Text) : ∃ r, s = dropTrailing p s ++ r := by
  refine ⟨(s.reverse.takeWhile p).reverse, ?_⟩
  rw [dropTrailing, ← List.reverse_append, List.takeWhile_append_dropWhile, List.reverse_reverse]

def startsWith (start s : Text) : Bool := start.isPrefixOf s

def endsWith (ending s : Text) : Bool := ending.isSuffixOf s

theorem startsWith_iff {start s : Text} : startsWith start s = true ↔ ∃ r, s = start ++ r := by
  simp only [startsWith, List.isPrefixOf_iff_prefix]
  exact ⟨fun ⟨r, h⟩ => ⟨r, h.symm⟩, fun ⟨r, h⟩ => ⟨r, h.symm⟩⟩

theorem endsWith_iff {ending s : Text} : endsWith ending s = true ↔ ∃ r, s = r ++ ending := by
  simp only [endsWith, List.isSuffixOf_iff_suffix]
  exact ⟨fun ⟨r, h⟩ => ⟨r, h.symm⟩, fun ⟨r, h⟩ => ⟨r, h.symm⟩⟩

def precedes : Text → Text → Bool
  | [], _ => true
  | _ :: _, [] => false
  | c :: s, d :: t => if c = d then precedes s t else c.toNat < d.toNat

def sorted (texts : List Text) : List Text := texts.mergeSort precedes

theorem mem_sorted {texts : List Text} {s : Text} : s ∈ sorted texts ↔ s ∈ texts := by
  simp [sorted]

def blankRanges : Ranges :=
  [(9, 13), (28, 32), (133, 133), (160, 160), (5760, 5760), (8192, 8202), (8232, 8233),
    (8239, 8239), (8287, 8287), (12288, 12288)]

def isBlank (c : CodePoint) : Bool := blankRanges.holds c

theorem isBlank_of_isWhitespace {c : Char} (h : c.isWhitespace = true) : isBlank c = true := by
  simp only [Char.isWhitespace, Bool.or_eq_true, decide_eq_true_eq] at h
  rcases h with ((h | h) | h) | h <;> subst h <;> decide

def strip (s : Text) : Text := dropTrailing isBlank (s.dropWhile isBlank)

theorem strip_nil : strip [] = [] := rfl

end Text

end ColorCensus
