import ColorCensus.Text.Basic

namespace ColorCensus.Text

def decimalDigit : CodePoint → Option Nat
  | .char c => if c.isDigit then some (c.toNat - '0'.toNat) else none
  | .surrogate _ => none

def hexDigit : CodePoint → Option Nat
  | .char c =>
    if c.isDigit then some (c.toNat - '0'.toNat)
    else if 'a' ≤ c ∧ c ≤ 'f' then some (c.toNat - 'a'.toNat + 10)
    else if 'A' ≤ c ∧ c ≤ 'F' then some (c.toNat - 'A'.toNat + 10)
    else none
  | .surrogate _ => none

def isHex (c : CodePoint) : Bool := (hexDigit c).isSome

def ofDigits (base : Nat) (digit : CodePoint → Option Nat) (s : Text) : Nat :=
  s.foldl (fun n c => n * base + (digit c).getD 0) 0

def ofDecimal (s : Text) : Nat := ofDigits 10 decimalDigit s

def ofHex (s : Text) : Nat := ofDigits 16 hexDigit s

def hex (n : Nat) : Text := (Nat.toDigits 16 n).map .char

def upperHex (n : Nat) : Text := (hex n).map CodePoint.toUpper

def takeRun (limit : Nat) (p : CodePoint → Bool) : Text → Text × Text
  | [] => ([], [])
  | c :: s =>
    match limit with
    | 0 => ([], c :: s)
    | limit + 1 =>
      if p c then
        let run := takeRun limit p s
        (c :: run.1, run.2)
      else ([], c :: s)

theorem takeRun_append (limit : Nat) (p : CodePoint → Bool) (s : Text) :
    (takeRun limit p s).1 ++ (takeRun limit p s).2 = s := by
  induction s generalizing limit with
  | nil => cases limit <;> rfl
  | cons c s ih =>
    cases limit with
    | zero => rfl
    | succ limit =>
      by_cases hc : p c = true
      · simpa [takeRun, hc] using ih limit
      · simp [takeRun, hc]

def leastLimit : Nat := 640

-- a setting of the platform, 4300 where nobody has set it: an integer with more digits is neither written nor read
inductive DigitLimit where
  | none
  | most (digits : Nat) (h : leastLimit ≤ digits)
  deriving DecidableEq, Repr

def DigitLimit.standard : DigitLimit := .most 4300 (by decide)

structure TooManyDigits where
  limit : Nat
  digits : Nat
  deriving DecidableEq, Repr

namespace DigitLimit

def excess? : DigitLimit → Int → Option TooManyDigits
  | none, _ => .none
  | most k _, n =>
    let digits := (natural n.natAbs).length
    if digits ≤ k then .none else some ⟨k, digits⟩

def admits (limit : DigitLimit) (n : Int) : Bool := (limit.excess? n).isNone

def check (limit : DigitLimit) (numbers : List Int) : Except TooManyDigits Unit :=
  match numbers.findSome? limit.excess? with
  | some f => .error f
  | .none => .ok ()

end DigitLimit

namespace TooManyDigits

def cause (f : TooManyDigits) : Text :=
  "Exceeds the limit (" ++ natural f.limit ++ " digits) for integer string conversion"

def remedy : Text := "; use sys.set_int_max_str_digits() to increase the limit"

def writingMessage (f : TooManyDigits) : Text := f.cause ++ remedy

def readingMessage (f : TooManyDigits) : Text :=
  f.cause ++ ": value has " ++ natural f.digits ++ " digits" ++ remedy

end TooManyDigits

def zeros : List Nat := [
  48, 1632, 1776, 1984, 2406, 2534, 2662, 2790, 2918, 3046, 3174, 3302, 3430, 3558, 3664, 3792,
  3872, 4160, 4240, 6112, 6160, 6470, 6608, 6784, 6800, 6992, 7088, 7232, 7248, 42528, 43216,
  43264, 43472, 43504, 43600, 44016, 65296, 66720, 68912, 69734, 69872, 69942, 70096, 70384,
  70736, 70864, 71248, 71360, 71472, 71904, 72016, 72784, 73040, 73120, 92768, 92864, 93008,
  120782, 120792, 120802, 120812, 120822, 123200, 123632, 125264, 130032]

def isNumeral (c : CodePoint) : Bool := zeros.any fun first => first ≤ c.toNat && c.toNat < first + 10

theorem isNumeral_of_isDigit {c : Char} (h : c.isDigit = true) : isNumeral c = true := by
  simp only [Char.isDigit, Bool.and_eq_true, decide_eq_true_eq] at h
  have h0 : 48 ≤ (CodePoint.char c).toNat := h.1
  have h9 : (CodePoint.char c).toNat ≤ 57 := h.2
  simp only [isNumeral, zeros, List.any_cons, Bool.or_eq_true, Bool.and_eq_true, decide_eq_true_eq]
  exact Or.inl ⟨h0, by omega⟩

end ColorCensus.Text
