import ColorCensus.Number.Decimal

namespace ColorCensus.Binary64

open Text Number

structure Digits where
  mantissa : Nat
  exponent : Int
  deriving DecidableEq, Repr

def Digits.value (d : Digits) : Rat := d.mantissa * (10 : Rat) ^ d.exponent

def neighbours (count : Nat) (q : Rat) : List Digits :=
  let exponent := decimalExponent q - (count - 1 : Int)
  let scaled := q / (10 : Rat) ^ exponent
  let below := scaled.floor.toNat
  let near := (roundHalfEven scaled).toNat
  if near = below then [⟨below, exponent⟩, ⟨below + 1, exponent⟩]
  else [⟨below + 1, exponent⟩, ⟨below, exponent⟩]

def readsBack (q : Rat) (d : Digits) : Bool := ofRat d.value = finite q

def shortestFrom (q : Rat) (count : Nat) : Nat → Digits
  | 0 => ⟨(roundHalfEven (q / (10 : Rat) ^ (decimalExponent q - 16))).toNat,
      decimalExponent q - 16⟩
  | tries + 1 =>
    match (neighbours count q).find? (readsBack q) with
    | some d => d
    | none => shortestFrom q (count + 1) tries

def shortest (q : Rat) : Digits := shortestFrom q 1 17

def significant (count : Nat) (q : Rat) : Digits :=
  let exponent := decimalExponent q - (count - 1 : Int)
  ⟨(roundHalfEven (q / (10 : Rat) ^ exponent)).toNat, exponent⟩

def Digits.text (d : Digits) : Text := dropTrailing (· = '0') (natural d.mantissa)

def Digits.leading (d : Digits) : Int := d.exponent + (natural d.mantissa).length - 1

def positional (digits : Text) (leading : Int) (pointed : Bool) : Text :=
  if leading < 0 then
    "0." ++ copies (-leading - 1).toNat '0' ++ digits
  else
    let places := leading.toNat + 1
    if digits.length ≤ places then
      digits ++ copies (places - digits.length) '0' ++ (if pointed then ".0" else "")
    else digits.take places ++ "." ++ digits.drop places

def scientific (digits : Text) (leading : Int) : Text :=
  let fraction := digits.drop 1
  digits.take 1 ++ (if fraction.isEmpty then fraction else '.' :: fraction) ++
    (if leading < 0 then "e-" else "e+") ++ padLeft 2 '0' (natural leading.natAbs)

def layout (d : Digits) (limit : Int) (pointed : Bool) : Text :=
  if -4 ≤ d.leading ∧ d.leading < limit then positional d.text d.leading pointed
  else scientific d.text d.leading

def signed (q : Rat) (text : Text) : Text := if q < 0 then '-' :: text else text

def toShortest : Binary64 → Text
  | finite q =>
    if q = 0 then "0.0" else signed q (layout (shortest q.abs) 16 true)
  | negativeZero => "-0.0"
  | infinite negative => if negative then "-inf" else "inf"
  | nan => "nan"

def toGeneral : Binary64 → Text
  | finite q =>
    if q = 0 then "0" else signed q (layout (significant 6 q.abs) 6 false)
  | negativeZero => "-0"
  | infinite negative => if negative then "-inf" else "inf"
  | nan => "nan"

end ColorCensus.Binary64
