import ColorCensus.Text.Basic

namespace ColorCensus.Text

def unifyNewlines : Text → Text
  | [] => []
  | '\r' :: '\n' :: s => '\n' :: unifyNewlines s
  | c :: s => (if c = '\r' then '\n' else c) :: unifyNewlines s

theorem return_not_mem_unifyNewlines (s : Text) : CodePoint.char '\r' ∉ unifyNewlines s := by
  fun_induction unifyNewlines s with
  | case1 => simp
  | case2 s ih => simp [ih]
  | case3 c s _ ih =>
    by_cases hc : c = '\r'
    · simp [hc, ih]
    · simp [hc, ih, Ne.symm hc]

theorem unifyNewlines_length_le (s : Text) : (unifyNewlines s).length ≤ s.length := by
  fun_induction unifyNewlines s with
  | case1 => simp
  | case2 s ih => simp only [List.length_cons]; omega
  | case3 c s _ ih => simp only [List.length_cons]; omega

def firstLine : Text → Option Text
  | [] => none
  | c :: s => some ((c :: s).takeWhile (· ≠ '\n'))

theorem firstLine_eq_none_iff {s : Text} : firstLine s = none ↔ s = [] := by
  cases s <;> simp [firstLine]

end ColorCensus.Text

namespace ColorCensus

structure Position where
  line : Nat
  column : Nat
  deriving DecidableEq, Repr

namespace Position

def start : Position := ⟨1, 1⟩

def next (p : Position) (c : CodePoint) : Position :=
  if c = '\n' then ⟨p.line + 1, 1⟩ else ⟨p.line, p.column + 1⟩

def after (p : Position) (s : Text) : Position := s.foldl next p

theorem after_append (p : Position) (s t : Text) : p.after (s ++ t) = (p.after s).after t :=
  List.foldl_append ..

end Position

end ColorCensus
