import ColorCensus.Number.Binary64
import ColorCensus.Text.Digit

namespace ColorCensus

structure Decimal where
  negative : Bool
  digits : Nat
  exponent : Int
  deriving DecidableEq, Repr

namespace Decimal

open Text

def digitsLength (s : Text) : Nat := (s.takeWhile CodePoint.isDigit).length

def signLength : Text → Nat
  | c :: _ => if c = '+' ∨ c = '-' then 1 else 0
  | [] => 0

def mantissaLength (s : Text) : Nat :=
  match s.drop (digitsLength s) with
  | '.' :: t => if digitsLength t = 0 then digitsLength s else digitsLength s + 1 + digitsLength t
  | _ => digitsLength s

def exponentLength : Text → Nat
  | [] => 0
  | c :: s =>
    if (c = 'e' ∨ c = 'E') ∧ digitsLength (s.drop (signLength s)) ≠ 0 then
      1 + signLength s + digitsLength (s.drop (signLength s))
    else 0

def literalLength (s : Text) : Nat :=
  let sign := signLength s
  let mantissa := mantissaLength (s.drop sign)
  if mantissa = 0 then 0 else sign + mantissa + exponentLength (s.drop (sign + mantissa))

def readSign : Text → Bool × Text
  | '-' :: s => (true, s)
  | '+' :: s => (false, s)
  | s => (false, s)

theorem readSign_rest_length_le (s : Text) : (readSign s).2.length ≤ s.length := by
  unfold readSign
  split <;> simp

def readExponent : Text → Int
  | [] => 0
  | _ :: s =>
    let (negative, digits) := readSign s
    if negative then -(ofDecimal digits : Int) else ofDecimal digits

def read (s : Text) : Decimal :=
  let (negative, s) := readSign s
  let whole := s.takeWhile CodePoint.isDigit
  match s.dropWhile CodePoint.isDigit with
  | '.' :: s =>
    let fraction := s.takeWhile CodePoint.isDigit
    ⟨negative, ofDecimal (whole ++ fraction),
      readExponent (s.dropWhile CodePoint.isDigit) - fraction.length⟩
  | s => ⟨negative, ofDecimal whole, readExponent s⟩

def magnitude (d : Decimal) : Int := Number.digitCount d.digits + d.exponent

def toBinary64 (d : Decimal) : Binary64 :=
  if d.digits = 0 ∨ d.magnitude < -330 then .ofSigned d.negative 0
  else if 310 < d.magnitude then .infinite d.negative
  else .ofSigned d.negative (d.digits * (10 : Rat) ^ d.exponent)

end Decimal

end ColorCensus
