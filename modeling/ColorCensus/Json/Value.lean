import ColorCensus.Number.Shortest

namespace ColorCensus.Json

open Text

inductive Value where
  | null
  | boolean (value : Bool)
  | integer (value : Int)
  | real (value : Binary64)
  | string (value : Text)
  | array (items : List Value)
  | object (members : List (Text × Value))

instance : Inhabited Value := ⟨.null⟩

def Value.member (name : Text) : Value → Option Value
  | .object members => members.lookup name
  | _ => none

theorem Value.member_object_cons (name : Text) (v : Value) (members : List (Text × Value)) :
    (Value.object ((name, v) :: members)).member name = some v := by
  simp [Value.member]

def charText (c : CodePoint) : Text :=
  if c = '"' ∨ c = '\\' then ['\\', c]
  else if c = '\n' then ['\\', 'n']
  else if c = '\r' then ['\\', 'r']
  else if c = '\t' then ['\\', 't']
  else if c = '\x0c' then ['\\', 'f']
  else if c = '\x08' then ['\\', 'b']
  else if c.toNat < 32 then '\\' :: 'u' :: padLeft 4 '0' (hex c.toNat)
  else [c]

def stringText (s : Text) : Text := "\"" ++ s.flatMap charText ++ "\""

def realText : Binary64 → Text
  | .nan => "NaN"
  | .infinite negative => if negative then "-Infinity" else "Infinity"
  | x => x.toShortest

def newline (level : Nat) : Text := '\n' :: List.replicate (2 * level) ' '

mutual

def Value.textAt (level : Nat) : Value → Text
  | .null => "null"
  | .boolean b => if b then "true" else "false"
  | .integer n => Text.integer n
  | .real x => realText x
  | .string s => stringText s
  | .array [] => "[]"
  | .array (v :: vs) =>
    "[" ++ newline (level + 1) ++ v.textAt (level + 1) ++ Value.itemsText (level + 1) vs ++
      newline level ++ "]"
  | .object [] => "\x7b\x7d"
  | .object ((k, v) :: vs) =>
    "\x7b" ++ newline (level + 1) ++ stringText k ++ ": " ++ v.textAt (level + 1) ++
      Value.membersText (level + 1) vs ++ newline level ++ "\x7d"

def Value.itemsText (level : Nat) : List Value → Text
  | [] => []
  | v :: vs => "," ++ newline level ++ v.textAt level ++ Value.itemsText level vs

def Value.membersText (level : Nat) : List (Text × Value) → Text
  | [] => []
  | (k, v) :: vs =>
    "," ++ newline level ++ stringText k ++ ": " ++ v.textAt level ++
      Value.membersText level vs

end

def Value.text (v : Value) : Text := v.textAt 0

end ColorCensus.Json
