namespace ColorCensus.Number

def roundHalfEven (q : Rat) : Int :=
  if q - q.floor < 1 / 2 then q.floor
  else if 1 / 2 < q - q.floor then q.floor + 1
  else if q.floor % 2 = 0 then q.floor else q.floor + 1

theorem roundHalfEven_eq_or (q : Rat) :
    roundHalfEven q = q.floor ∨ roundHalfEven q = q.floor + 1 := by
  unfold roundHalfEven
  split
  · exact .inl rfl
  · split
    · exact .inr rfl
    · split
      · exact .inl rfl
      · exact .inr rfl

theorem roundHalfEven_intCast (n : Int) : roundHalfEven n = n := by
  have h : (n : Rat) - ((n : Rat).floor : Rat) < 1 / 2 := by
    rw [Rat.floor_intCast, Rat.sub_self]
    decide +kernel
  rw [roundHalfEven, if_pos h, Rat.floor_intCast]

def binaryExponent (q : Rat) : Int :=
  let estimate := (q.num.natAbs.log2 : Int) - q.den.log2
  if (2 : Rat) ^ estimate ≤ q then estimate else estimate - 1

def digitCount (n : Nat) : Nat := (Nat.toDigits 10 n).length

def decimalExponent (q : Rat) : Int :=
  if 1 ≤ q then digitCount q.floor.toNat - 1
  else -(digitCount (q⁻¹.ceil.toNat - 1) : Int)

end ColorCensus.Number
