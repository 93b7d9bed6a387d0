namespace ColorCensus

inductive CodePoint where
  | char (c : Char)
  | surrogate (n : Fin 2048)
  deriving DecidableEq, Repr

instance : Coe Char CodePoint := ⟨CodePoint.char⟩

namespace CodePoint

def toNat : CodePoint → Nat
  | char c => c.toNat
  | surrogate n => 0xD800 + n

def ofNat (n : Nat) : CodePoint :=
  if h : 0xD800 ≤ n ∧ n < 0xE000 then surrogate ⟨n - 0xD800, by omega⟩
  else if n < 0x110000 then char (Char.ofNat n)
  else char '\ufffd'

theorem toNat_ofNat {n : Nat} (h : n < 0x110000) : (ofNat n).toNat = n := by
  unfold ofNat
  split
  · simp only [toNat]
    omega
  · have hv : n.isValidChar := by
      simp only [Nat.isValidChar]
      omega
    rw [toNat, Char.ofNat, dif_pos hv]
    rfl

theorem toNat_lt (c : CodePoint) : c.toNat < 0x110000 := by
  cases c with
  | char c =>
    have h := c.valid
    simp only [UInt32.isValidChar, Nat.isValidChar] at h
    simp only [toNat, Char.toNat]
    omega
  | surrogate n =>
    simp only [toNat]
    omega

def isSurrogate : CodePoint → Bool
  | char _ => false
  | surrogate _ => true

def isUnencodable : CodePoint → Bool
  | char _ => false
  | surrogate n => decide (n.val < 0x480 ∨ 0x500 ≤ n.val)

def toChar : CodePoint → Char
  | char c => c
  | surrogate _ => '\ufffd'

def isDigit : CodePoint → Bool
  | char c => c.isDigit
  | surrogate _ => false

def isAlpha : CodePoint → Bool
  | char c => c.isAlpha
  | surrogate _ => false

def isAlphanum : CodePoint → Bool
  | char c => c.isAlphanum
  | surrogate _ => false

def toLower : CodePoint → CodePoint
  | char c => char c.toLower
  | surrogate n => surrogate n

def toUpper : CodePoint → CodePoint
  | char c => char c.toUpper
  | surrogate n => surrogate n

end CodePoint

end ColorCensus
