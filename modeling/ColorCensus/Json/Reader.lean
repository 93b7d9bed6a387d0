import ColorCensus.Json.Value
import ColorCensus.Number.Decimal
import ColorCensus.Text.Newline

namespace ColorCensus.Json

open Text Decimal

inductive Cause where
  | expectingValue
  | expectingComma
  | expectingColon
  | expectingName
  | unterminatedString
  | controlCharacter
  | invalidEscape
  | invalidCodeEscape
  | extraData
  | byteOrderMark
  | tooManyDigits (fault : TooManyDigits)
  deriving DecidableEq, Repr

structure Fault where
  cause : Cause
  left : Nat
  deriving DecidableEq, Repr

def Fault.quoted (behind : Text) (f : Fault) : Fault :=
  match f.cause with
  | .unterminatedString => ⟨.unterminatedString, behind.length + 1⟩
  | _ => f

def isBlankMark (c : CodePoint) : Bool := c == ' ' || c == '\t' || c == '\n' || c == '\r'

def skipBlank (s : Text) : Text := s.dropWhile isBlankMark

theorem skipBlank_length_le (s : Text) : (skipBlank s).length ≤ s.length :=
  (List.dropWhile_sublist _).length_le

structure Rest (s : Text) where
  text : Text
  shorter : text.length < s.length

def Rest.widen {s t : Text} (r : Rest t) (h : t.length ≤ s.length) : Rest s :=
  ⟨r.text, Nat.lt_of_lt_of_le r.shorter h⟩

def Rest.skip {s : Text} (r : Rest s) : Rest s :=
  ⟨skipBlank r.text, Nat.lt_of_le_of_lt (skipBlank_length_le _) r.shorter⟩

def Rest.of {s t : Text} (h : t.length < s.length) : Rest s := ⟨t, h⟩

def Rest.tail (c : CodePoint) (s : Text) : Rest (c :: s) := ⟨s, Nat.lt_succ_self _⟩

def Rest.after (c : CodePoint) (s : Text) (n : Nat) : Rest (c :: s) :=
  ⟨s.drop n, Nat.lt_succ_of_le (List.length_drop ▸ Nat.sub_le _ _)⟩

def Rest.behind {s : Text} (r : Rest s) (c : CodePoint) : Rest (c :: s) := r.widen (Nat.le_succ _)

def simpleEscape : CodePoint → Option CodePoint
  | '"' => some '"'
  | '\\' => some '\\'
  | '/' => some '/'
  | 'b' => some '\x08'
  | 'f' => some '\x0c'
  | 'n' => some '\n'
  | 'r' => some '\r'
  | 't' => some '\t'
  | _ => none

def codeUnit (s : Text) : Option Nat :=
  if (s.take 4).all isHex ∧ s.drop 4 ≠ [] then some (ofHex (s.take 4)) else none

def isHighSurrogate (n : Nat) : Bool := decide (0xD800 ≤ n ∧ n < 0xDC00)

def isLowSurrogate (n : Nat) : Bool := decide (0xDC00 ≤ n ∧ n < 0xE000)

def lowSurrogate (s : Text) : Option Nat :=
  match s with
  | '\\' :: 'u' :: t => (codeUnit t).filter isLowSurrogate
  | _ => none

def unitChar (n : Nat) (after : Text) : CodePoint × Nat :=
  if isHighSurrogate n then
    match lowSurrogate after with
    | some m => (CodePoint.ofNat (0x10000 + (n - 0xD800) * 1024 + (m - 0xDC00)), 6)
    | none => (CodePoint.ofNat n, 0)
  else (CodePoint.ofNat n, 0)

theorem drop_drop_length_lt (c d : CodePoint) (s : Text) (n : Nat) :
    ((s.drop 4).drop n).length < (c :: d :: s).length := by
  simp only [List.length_drop, List.length_cons]
  omega

def readCharacters : (s : Text) → Except Fault (Text × Rest s)
  | [] => .error ⟨.unterminatedString, 0⟩
  | c :: s =>
    if c = '"' then .ok ([], .tail c s)
    else if c = '\\' then
      match s with
      | [] => .error ⟨.unterminatedString, 0⟩
      | d :: t =>
        if d = 'u' then
          match codeUnit t with
          | none => .error ⟨.invalidCodeEscape, t.length + 1⟩
          | some n =>
            let read := unitChar n (t.drop 4)
            let after := (t.drop 4).drop read.2
            have h : after.length < (c :: d :: t).length := drop_drop_length_lt c d t read.2
            (readCharacters after).map fun more =>
              (read.1 :: more.1, more.2.widen (Nat.le_of_lt h))
        else
          match simpleEscape d with
          | none => .error ⟨.invalidEscape, t.length + 2⟩
          | some e =>
            (readCharacters t).map fun more => (e :: more.1, (more.2.behind d).behind c)
    else if c.toNat < 32 then .error ⟨.controlCharacter, s.length + 1⟩
    else (readCharacters s).map fun more => (c :: more.1, more.2.behind c)
termination_by s => s.length
decreasing_by
  · exact h
  · exact Nat.lt_succ_of_lt (Nat.lt_succ_self _)
  · exact Nat.lt_succ_self _

def readString (s : Text) : Except Fault (Text × Rest s) :=
  (readCharacters s).mapError (Fault.quoted s)

def wholeLength : Text → Nat
  | '0' :: _ => 1
  | s => digitsLength s

def fractionLength : Text → Nat
  | '.' :: s => if digitsLength s = 0 then 0 else digitsLength s + 1
  | _ => 0

def minusLength : Text → Nat
  | '-' :: _ => 1
  | _ => 0

def readNumber (s : Text) : Option (Value × Nat) :=
  let sign := minusLength s
  let whole := wholeLength (s.drop sign)
  if whole = 0 then none
  else
    let fraction := fractionLength (s.drop (sign + whole))
    let exponent := exponentLength (s.drop (sign + whole + fraction))
    let length := sign + whole + fraction + exponent
    if fraction + exponent = 0 then
      let magnitude : Int := ofDecimal ((s.drop sign).take whole)
      some (.integer (if sign = 1 then -magnitude else magnitude), length)
    else some (.real (Decimal.read (s.take length)).toBinary64, length)

def words : List (Text × Value) :=
  [("null", .null), ("true", .boolean true), ("false", .boolean false), ("NaN", .real .nan),
    ("Infinity", .real (.infinite false)), ("-Infinity", .real (.infinite true))]

def readScalar (s : Text) : Option (Value × Nat) :=
  match words.find? fun w => startsWith w.1 s with
  | some w => some (w.2, w.1.length)
  | none => readNumber s

def excess? (limit : DigitLimit) : Value → Option TooManyDigits
  | .integer n => limit.excess? n
  | _ => none

-- values nest to any depth here: the bound that the stack of a running reader puts on them is left out

mutual

def readValue (limit : DigitLimit) (s : Text) : Except Fault (Value × Rest s) :=
  match s with
  | [] => .error ⟨.expectingValue, 0⟩
  | c :: t =>
    if c = '"' then
      (readString t).map fun read => (.string read.1, read.2.widen (Nat.le_succ _))
    else if c = '[' then
      match h : skipBlank t with
      | ']' :: u =>
        .ok (.array [], ⟨u, by
          have := skipBlank_length_le t
          simp only [h, List.length_cons] at this ⊢
          omega⟩)
      | u =>
        have hu : u.length < (c :: t).length := by
          have := skipBlank_length_le t
          simp only [h, List.length_cons] at this ⊢
          omega
        (readItems limit u).map fun read => (.array read.1, read.2.widen (Nat.le_of_lt hu))
    else if c = '\x7b' then
      match h : skipBlank t with
      | '\x7d' :: u =>
        .ok (.object [], ⟨u, by
          have := skipBlank_length_le t
          simp only [h, List.length_cons] at this ⊢
          omega⟩)
      | u =>
        have hu : u.length < (c :: t).length := by
          have := skipBlank_length_le t
          simp only [h, List.length_cons] at this ⊢
          omega
        (readMembers limit u).map fun read => (.object read.1, read.2.widen (Nat.le_of_lt hu))
    else
      match readScalar (c :: t) with
      | some (v, n + 1) =>
        match excess? limit v with
        | some f => .error ⟨.tooManyDigits f, t.length + 1⟩
        | none => .ok (v, Rest.after c t n)
      | _ => .error ⟨.expectingValue, t.length + 1⟩
termination_by 2 * s.length
decreasing_by all_goals simp only [List.length_cons] at hu ⊢; omega

def readItems (limit : DigitLimit) (s : Text) : Except Fault (List Value × Rest s) :=
  match readValue limit s with
  | .error f => .error f
  | .ok (v, r) =>
    match h : r.skip.text with
    | [] => .error ⟨.expectingComma, 0⟩
    | c :: t =>
      have ht : t.length < s.length := by
        have := r.skip.shorter
        simp only [h, List.length_cons] at this
        omega
      if c = ']' then .ok ([v], ⟨t, ht⟩)
      else if c = ',' then
        have hs : (skipBlank t).length < s.length :=
          Nat.lt_of_le_of_lt (skipBlank_length_le t) ht
        (readItems limit (skipBlank t)).map fun read =>
          (v :: read.1, read.2.widen (Nat.le_of_lt hs))
      else .error ⟨.expectingComma, t.length + 1⟩
termination_by 2 * s.length + 1
decreasing_by
  · exact Nat.lt_succ_self _
  · omega

def readMembers (limit : DigitLimit) (s : Text) : Except Fault (List (Text × Value) × Rest s) :=
  match s with
  | '"' :: t =>
    match readString t with
    | .error f => .error f
    | .ok (k, r) =>
      match h : r.skip.text with
      | ':' :: u =>
        have hu : (skipBlank u).length < (.char '"' :: t).length := by
          have h1 := r.skip.shorter
          have h2 := skipBlank_length_le u
          simp only [h, List.length_cons] at h1 ⊢
          omega
        match readValue limit (skipBlank u) with
        | .error f => .error f
        | .ok (v, q) =>
          match h' : q.skip.text with
          | [] => .error ⟨.expectingComma, 0⟩
          | c :: w =>
            have hw : w.length < (.char '"' :: t).length := by
              have := q.skip.shorter
              simp only [h', List.length_cons] at this hu ⊢
              omega
            if c = '\x7d' then .ok ([(k, v)], ⟨w, hw⟩)
            else if c = ',' then
              have hs : (skipBlank w).length < (.char '"' :: t).length :=
                Nat.lt_of_le_of_lt (skipBlank_length_le w) hw
              (readMembers limit (skipBlank w)).map fun read =>
                ((k, v) :: read.1, read.2.widen (Nat.le_of_lt hs))
            else .error ⟨.expectingComma, w.length + 1⟩
      | u => .error ⟨.expectingColon, u.length⟩
  | s => .error ⟨.expectingName, s.length⟩
termination_by 2 * s.length + 1
decreasing_by all_goals omega

end

def parse (limit : DigitLimit) (s : Text) : Except Fault Value :=
  if s.head? = some '\ufeff' then .error ⟨.byteOrderMark, s.length⟩
  else
    match readValue limit (skipBlank s) with
    | .error f => .error f
    | .ok (v, r) =>
      match r.skip.text with
      | [] => .ok v
      | u => .error ⟨.extraData, u.length⟩

def Cause.message : Cause → Text
  | .expectingValue => "Expecting value"
  | .expectingComma => "Expecting ',' delimiter"
  | .expectingColon => "Expecting ':' delimiter"
  | .expectingName => "Expecting property name enclosed in double quotes"
  | .unterminatedString => "Unterminated string starting at"
  | .controlCharacter => "Invalid control character at"
  | .invalidEscape => "Invalid \\escape"
  | .invalidCodeEscape => "Invalid \\uXXXX escape"
  | .extraData => "Extra data"
  | .byteOrderMark => "Unexpected UTF-8 BOM (decode using utf-8-sig)"
  | .tooManyDigits f => f.readingMessage

def Fault.place (document : Text) (f : Fault) : Text :=
  let offset := document.length - f.left
  let position := Position.start.after (document.take offset)
  ": line " ++ natural position.line ++ " column " ++ natural position.column ++
    " (char " ++ natural offset ++ ")"

def Fault.message (document : Text) (f : Fault) : Text :=
  match f.cause with
  | .tooManyDigits fault => fault.readingMessage
  | cause => cause.message ++ f.place document

end ColorCensus.Json
