import ColorCensus.Text.Digit

namespace ColorCensus.Text.Utf8

inductive Reason where
  | invalidStart
  | invalidContinuation
  | unexpectedEnd
  deriving DecidableEq, Repr

structure Fault where
  reason : Reason
  byte : UInt8
  first : Nat
  last : Nat
  deriving DecidableEq, Repr

structure Sequence where
  value : Nat
  missing : Nat
  low : Nat
  high : Nat
  lead : UInt8
  start : Nat
  deriving DecidableEq, Repr

def Sequence.opened (offset : Nat) (b : UInt8) : Option Sequence :=
  let n := b.toNat
  if 0xC2 ≤ n ∧ n ≤ 0xDF then some ⟨n - 0xC0, 1, 0x80, 0xBF, b, offset⟩
  else if n = 0xE0 then some ⟨0, 2, 0xA0, 0xBF, b, offset⟩
  else if n = 0xED then some ⟨0xD, 2, 0x80, 0x9F, b, offset⟩
  else if 0xE1 ≤ n ∧ n ≤ 0xEF then some ⟨n - 0xE0, 2, 0x80, 0xBF, b, offset⟩
  else if n = 0xF0 then some ⟨0, 3, 0x90, 0xBF, b, offset⟩
  else if n = 0xF4 then some ⟨4, 3, 0x80, 0x8F, b, offset⟩
  else if 0xF1 ≤ n ∧ n ≤ 0xF3 then some ⟨n - 0xF0, 3, 0x80, 0xBF, b, offset⟩
  else none

def Sequence.accepts (q : Sequence) (b : UInt8) : Bool :=
  decide (q.low ≤ b.toNat ∧ b.toNat ≤ q.high)

def Sequence.extend (q : Sequence) (b : UInt8) : Sequence :=
  { q with value := q.value * 64 + (b.toNat - 0x80), missing := q.missing - 1, low := 0x80,
           high := 0xBF }

def decodeFrom (offset : Nat) : Option Sequence → List UInt8 → Except Fault Text
  | none, [] => .ok []
  | some q, [] => .error ⟨.unexpectedEnd, q.lead, q.start, offset - 1⟩
  | none, b :: bytes =>
    if b.toNat < 0x80 then
      (decodeFrom (offset + 1) none bytes).map (CodePoint.ofNat b.toNat :: ·)
    else
      match Sequence.opened offset b with
      | some q => decodeFrom (offset + 1) (some q) bytes
      | none => .error ⟨.invalidStart, b, offset, offset⟩
  | some q, b :: bytes =>
    if q.accepts b then
      if q.missing ≤ 1 then
        (decodeFrom (offset + 1) none bytes).map (CodePoint.ofNat (q.extend b).value :: ·)
      else decodeFrom (offset + 1) (some (q.extend b)) bytes
    else .error ⟨.invalidContinuation, q.lead, q.start, offset - 1⟩

def decode (bytes : List UInt8) : Except Fault Text := decodeFrom 0 none bytes

theorem decode_nil : decode [] = .ok [] := rfl

theorem decodeFrom_of_isAscii (offset : Nat) {bytes : List UInt8}
    (h : ∀ b ∈ bytes, b.toNat < 0x80) :
    decodeFrom offset none bytes = .ok (bytes.map fun b => CodePoint.ofNat b.toNat) := by
  induction bytes generalizing offset with
  | nil => rfl
  | cons b bytes ih =>
    have hb : b.toNat < 0x80 := h b (List.mem_cons_self ..)
    rw [decodeFrom, if_pos hb, ih (offset + 1) fun d hd => h d (List.mem_cons_of_mem _ hd)]
    rfl

def encode (s : Text) : List UInt8 := s.flatMap fun c => String.utf8EncodeChar c.toChar

def width : CodePoint → Nat
  | .char c => c.utf8Size
  | .surrogate _ => 1

def size (s : Text) : Nat := s.foldr (fun c n => width c + n) 0

theorem size_append (s t : Text) : size (s ++ t) = size s + size t := by
  induction s with
  | nil => simp [size]
  | cons c s ih =>
    simp only [size, List.cons_append, List.foldr_cons] at ih ⊢
    omega

structure EncodeFault where
  character : CodePoint
  first : Nat
  last : Nat
  deriving DecidableEq, Repr

def encodeFault? (s : Text) : Option EncodeFault :=
  let rest := s.dropWhile fun c => !c.isUnencodable
  let first := s.length - rest.length
  match rest with
  | [] => none
  | c :: after => some ⟨c, first, first + (after.takeWhile CodePoint.isSurrogate).length⟩

def EncodeFault.message (f : EncodeFault) : Text :=
  if f.first = f.last then
    ("'utf-8' codec can't encode character '\\u" : Text) ++ padLeft 4 '0' (hex f.character.toNat) ++
      ("' in position " : Text) ++ natural f.first ++ (": surrogates not allowed" : Text)
  else
    ("'utf-8' codec can't encode characters in position " : Text) ++ natural f.first ++ "-" ++
      natural f.last ++ (": surrogates not allowed" : Text)

def Reason.message : Reason → Text
  | .invalidStart => "invalid start byte"
  | .invalidContinuation => "invalid continuation byte"
  | .unexpectedEnd => "unexpected end of data"

def Fault.message (f : Fault) : Text :=
  if f.first = f.last then
    ("'utf-8' codec can't decode byte 0x" : Text) ++ padLeft 2 '0' (hex f.byte.toNat) ++
      (" in position " : Text) ++ natural f.first ++ (": " : Text) ++ f.reason.message
  else
    ("'utf-8' codec can't decode bytes in position " : Text) ++ natural f.first ++ "-" ++
      natural f.last ++ (": " : Text) ++ f.reason.message

end ColorCensus.Text.Utf8
