import ColorCensus.Text.Basic

namespace ColorCensus.Css

def afterComment? : Text → Option Text
  | '*' :: '/' :: s => some s
  | _ :: s => afterComment? s
  | [] => none

theorem afterComment?_length_lt {s r : Text} (h : afterComment? s = some r) :
    r.length < s.length := by
  fun_induction afterComment? s with
  | case1 s =>
    obtain rfl := Option.some.inj h
    simp only [List.length_cons]
    omega
  | case2 c s _ ih => exact Nat.lt_succ_of_lt (ih h)
  | case3 => simp at h

def afterString? (quote : CodePoint) : Text → Option Text
  | [] => none
  | c :: s =>
    if c = quote then some s
    else if c = '\\' then
      match s with
      | [] => none
      | _ :: t => afterString? quote t
    else if c = '\n' then none
    else afterString? quote s

theorem afterString?_length_lt {quote : CodePoint} {s r : Text} (h : afterString? quote s = some r) :
    r.length < s.length := by
  fun_induction afterString? quote s with
  | case1 => simp at h
  | case2 s =>
    obtain rfl := Option.some.inj h
    exact Nat.lt_succ_self _
  | case3 => simp at h
  | case4 d t _ ih => exact Nat.lt_succ_of_lt (Nat.lt_succ_of_lt (ih h))
  | case5 => simp at h
  | case6 c s _ _ _ ih => exact Nat.lt_succ_of_lt (ih h)

def afterPiece? (c : CodePoint) (s : Text) : Option Text :=
  if c = '/' ∧ s.head? = some '*' then afterComment? (s.drop 1)
  else if c = '"' ∨ c = '\'' then afterString? c s
  else if c = '\\' then s.tail?
  else none

theorem afterPiece?_length_le {c : CodePoint} {s r : Text} (h : afterPiece? c s = some r) :
    r.length ≤ s.length := by
  unfold afterPiece? at h
  split at h
  · have h1 := afterComment?_length_lt h
    simp only [List.length_drop] at h1
    omega
  · split at h
    · exact Nat.le_of_lt (afterString?_length_lt h)
    · split at h
      · cases s with
        | nil => simp at h
        | cons d t =>
          obtain rfl := Option.some.inj h
          exact Nat.le_succ _
      · simp at h

def bare : Text → Text
  | [] => []
  | c :: s =>
    match h : afterPiece? c s with
    | some r =>
      have := afterPiece?_length_le h
      bare r
    | none => c :: bare s
termination_by s => s.length
decreasing_by all_goals simp_all only [List.length_cons]; omega

theorem bare_nil : bare [] = [] := by rw [bare]

theorem bare_cons_of_some {c : CodePoint} {s r : Text} (h : afterPiece? c s = some r) :
    bare (c :: s) = bare r := by
  rw [bare]
  split <;> simp_all

theorem bare_cons_of_none {c : CodePoint} {s : Text} (h : afterPiece? c s = none) :
    bare (c :: s) = c :: bare s := by
  rw [bare]
  split <;> simp_all

inductive Imbalance where
  | unexpected
  | missing
  deriving DecidableEq, Repr

def imbalanceFrom : Nat → Text → Option Imbalance
  | depth, [] => if depth = 0 then none else some .missing
  | depth, c :: s =>
    if c = '\x7b' then imbalanceFrom (depth + 1) s
    else if c = '\x7d' then
      match depth with
      | 0 => some .unexpected
      | depth + 1 => imbalanceFrom depth s
    else imbalanceFrom depth s

def imbalance (s : Text) : Option Imbalance := imbalanceFrom 0 (bare s)

theorem imbalance_nil : imbalance [] = none := by rw [imbalance, bare_nil]; rfl

end ColorCensus.Css
