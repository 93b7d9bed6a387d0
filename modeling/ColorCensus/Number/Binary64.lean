import ColorCensus.Number.Rounding

namespace ColorCensus

inductive Binary64 where
  | finite (value : Rat)
  | negativeZero
  | infinite (negative : Bool)
  | nan
  deriving DecidableEq

namespace Binary64

open Number

instance : Inhabited Binary64 := ⟨.finite 0⟩

def unitExponent (q : Rat) : Int := max (binaryExponent q - 52) (-1074)

def nearest (q : Rat) : Rat :=
  if q = 0 then 0
  else
    let unit := (2 : Rat) ^ unitExponent q.abs
    roundHalfEven (q / unit) * unit

def ofRat (q : Rat) : Binary64 :=
  if (2 : Rat) ^ (1024 : Int) ≤ (nearest q).abs then infinite (q < 0) else finite (nearest q)

def ofSigned (negative : Bool) (magnitude : Rat) : Binary64 :=
  match negative, ofRat magnitude with
  | true, finite q => if q = 0 then negativeZero else finite (-q)
  | true, infinite _ => infinite true
  | _, x => x

def ofInt (n : Int) : Binary64 := ofRat n

instance (n : Nat) : OfNat Binary64 n := ⟨ofInt n⟩

theorem nearest_zero : nearest 0 = 0 := by simp [nearest]

def toRat? : Binary64 → Option Rat
  | finite q => some q
  | negativeZero => some 0
  | _ => none

def isFinite (x : Binary64) : Bool := x.toRat?.isSome

theorem isFinite_iff {x : Binary64} : x.isFinite = true ↔ ∃ q, x.toRat? = some q := by
  simp [isFinite, Option.isSome_iff_exists]

def isNegative : Binary64 → Bool
  | finite q => q < 0
  | negativeZero => true
  | infinite negative => negative
  | nan => false

def neg : Binary64 → Binary64
  | finite q => if q = 0 then negativeZero else finite (-q)
  | negativeZero => finite 0
  | infinite negative => infinite !negative
  | nan => nan

def add : Binary64 → Binary64 → Binary64
  | nan, _ => nan
  | _, nan => nan
  | infinite s, infinite t => if s = t then infinite s else nan
  | infinite s, _ => infinite s
  | _, infinite t => infinite t
  | x, y => ofRat (x.toRat?.getD 0 + y.toRat?.getD 0)

def sub (x y : Binary64) : Binary64 := add x (neg y)

def mul (x y : Binary64) : Binary64 :=
  match x.toRat?, y.toRat? with
  | some p, some q => ofRat (p * q)
  | some p, none =>
    if y = nan ∨ p = 0 then nan else infinite (x.isNegative != y.isNegative)
  | none, some q =>
    if x = nan ∨ q = 0 then nan else infinite (x.isNegative != y.isNegative)
  | none, none => if x = nan ∨ y = nan then nan else infinite (x.isNegative != y.isNegative)

def div (x y : Binary64) : Binary64 :=
  match x.toRat?, y.toRat? with
  | some p, some q =>
    if q = 0 then if p = 0 then nan else infinite (x.isNegative != y.isNegative)
    else ofRat (p / q)
  | some _, none => if y = nan then nan else finite 0
  | none, some _ => if x = nan then nan else infinite (x.isNegative != y.isNegative)
  | none, none => nan

def mod (x y : Binary64) : Binary64 :=
  match x.toRat?, y.toRat? with
  | some p, some q =>
    if q = 0 then nan
    else
      let quotient := p / q
      let whole := if quotient < 0 then quotient.ceil else quotient.floor
      let rest := p - whole * q
      if rest = 0 then finite 0
      else if (rest < 0) = (q < 0) then finite rest
      else ofRat (rest + q)
  | some p, none =>
    if y = nan then nan
    else if p = 0 then finite 0
    else if (p < 0) = (y.isNegative = true) then finite p else y
  | none, _ => nan

instance : Add Binary64 := ⟨add⟩
instance : Sub Binary64 := ⟨sub⟩
instance : Mul Binary64 := ⟨mul⟩
instance : Div Binary64 := ⟨div⟩
instance : Mod Binary64 := ⟨mod⟩
instance : Neg Binary64 := ⟨neg⟩

def lt : Binary64 → Binary64 → Bool
  | nan, _ => false
  | _, nan => false
  | infinite s, infinite t => s && !t
  | infinite s, _ => s
  | _, infinite t => !t
  | x, y => x.toRat?.getD 0 < y.toRat?.getD 0

def le : Binary64 → Binary64 → Bool
  | nan, _ => false
  | _, nan => false
  | x, y => !lt y x

theorem lt_finite (p q : Rat) : lt (finite p) (finite q) = decide (p < q) := rfl

theorem le_finite (p q : Rat) : le (finite p) (finite q) = !decide (q < p) := rfl

def unitClamp : Binary64 → Binary64
  | finite q => finite (if q < 0 then 0 else if 1 < q then 1 else q)
  | infinite negative => finite (if negative then 0 else 1)
  | _ => finite 0

theorem unitClamp_eq_finite (x : Binary64) :
    ∃ q, x.unitClamp = finite q := by
  cases x with
  | finite q => exact ⟨_, rfl⟩
  | negativeZero => exact ⟨_, rfl⟩
  | infinite s => exact ⟨_, rfl⟩
  | nan => exact ⟨_, rfl⟩

def round (places : Nat) : Binary64 → Binary64
  | finite q =>
    let scale : Rat := (10 : Rat) ^ places
    ofSigned (q < 0) ((roundHalfEven (q * scale) / scale : Rat).abs)
  | x => x

def floor (x : Binary64) : Int := (x.toRat?.getD 0).floor

end Binary64

end ColorCensus
