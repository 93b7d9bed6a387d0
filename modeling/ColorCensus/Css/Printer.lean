import ColorCensus.Css.Node

namespace ColorCensus.Css

open Text

def escapedChar (c : CodePoint) : Text :=
  if c = '\n' then "\\A " else if c = '\r' then "\\D " else if c = '\x0c' then "\\C " else ['\\', c]

def nameText (s : Text) : Text := s.flatMap fun c => if isNameChar c then [c] else escapedChar c

def firstText (c : CodePoint) : Text :=
  if isNameStart c then [c]
  else if c.isDigit then "\\" ++ upperHex c.toNat ++ " "
  else escapedChar c

def identifierText : Text → Text
  | [] => []
  | ['-'] => "\\-"
  | '-' :: '-' :: s => '-' :: '-' :: nameText s
  | '-' :: c :: s => '-' :: (firstText c ++ nameText s)
  | c :: s => firstText c ++ nameText s

def stringText (s : Text) : Text :=
  s.flatMap fun (c : CodePoint) =>
    if c = '"' ∨ c = '\\' then ['\\', c]
    else if c = '\n' ∨ c = '\r' ∨ c = '\x0c' then escapedChar c
    else [c]

def urlText (s : Text) : Text :=
  s.flatMap fun (c : CodePoint) =>
    if c = '\t' then "\\9 "
    else if c = '\n' ∨ c = '\r' ∨ c = '\x0c' then escapedChar c
    else if (['\'', '"', '\\', '(', ')', ' '] : Text).contains c then ['\\', c]
    else [c]

def unitText : Text → Text
  | [] => []
  | c :: s =>
    if (c = 'e' ∨ c = 'E') ∧ (s = [] ∨ s.head? = some '-') then "\\65 " ++ nameText s
    else identifierText (c :: s)

def TokenFault.text : TokenFault → Text
  | .brokenString => "\"[bad string]\n"
  | .brokenUrl => "url([bad url])"
  | .unfinishedString => []
  | .unfinishedUrl => []
  | .unmatched b => [b.closing]

def Token.text : Token → Text
  | .space text => text
  | .ident name => identifierText name
  | .atKeyword name => '@' :: identifierText name
  | .hash name isIdentifier => '#' :: (if isIdentifier then identifierText name else nameText name)
  | .string value closed => "\"" ++ stringText value ++ (if closed then "\"" else "")
  | .url value closed => "url(" ++ urlText value ++ (if closed then ")" else "")
  | .unicodeRange first last =>
    "U+" ++ upperHex first ++ (if first = last then [] else '-' :: upperHex last : Text)
  | .number text => text
  | .percentage text => text ++ "%"
  | .dimension text unit => text ++ unitText unit
  | .delimiter text => text
  | .fault f => f.text

inductive Kind where
  | ident
  | atKeyword
  | hash
  | function
  | url
  | unicodeRange
  | number
  | percentage
  | dimension
  | parentheses
  | delimiter (text : Text)
  | other
  deriving DecidableEq

def Token.kind : Token → Kind
  | .ident _ => .ident
  | .atKeyword _ => .atKeyword
  | .hash .. => .hash
  | .url .. => .url
  | .unicodeRange .. => .unicodeRange
  | .number _ => .number
  | .percentage _ => .percentage
  | .dimension .. => .dimension
  | .delimiter text => .delimiter text
  | _ => .other

def Node.kind : Node → Kind
  | .token _ t => t.kind
  | .function .. => .function
  | .block _ .round _ _ => .parentheses
  | .block .. => .other

def Kind.mark (c : CodePoint) : Kind := .delimiter [c]

def Kind.clashes : List (List Kind × List Kind) := [
  ([.ident, .atKeyword, .hash, .dimension, .mark '#', .mark '-', .number],
    [.ident, .function, .url, .number, .percentage, .dimension, .unicodeRange]),
  ([.ident, .atKeyword, .hash, .dimension], [.mark '-', .delimiter (Text.ofString "-->")]),
  ([.mark '#', .mark '-', .number, .mark '@'], [.ident, .function, .url]),
  ([.unicodeRange, .mark '.', .mark '+'], [.number, .percentage, .dimension]),
  ([.mark '@'], [.ident, .function, .url, .unicodeRange, .mark '-']),
  ([.unicodeRange], [.ident, .function, .mark '?']),
  ([.mark '$', .mark '*', .mark '^', .mark '~', .mark '|'], [.mark '=']),
  ([.ident], [.parentheses]),
  ([.mark '|'], [.mark '|']),
  ([.mark '/'], [.mark '*'])]

def Kind.runsInto (a b : Kind) : Bool :=
  Kind.clashes.any fun pair => pair.1.contains a && pair.2.contains b

def Node.startsWithNewline : Node → Bool
  | .token _ (.space text) => startsLine text
  | _ => false

def separatorText : Option Kind → Node → Text
  | none, _ => []
  | some a, n =>
    if a.runsInto n.kind then "/**/"
    else if a = .mark '\\' ∧ n.startsWithNewline = false then ['\n']
    else []

mutual

def Node.endsInString : Node → Bool
  | .token _ (.fault .unfinishedString) => true
  | .token .. => false
  | .function _ _ arguments _ => Node.listEndsInString arguments
  | .block .. => false

def Node.listEndsInString : List Node → Bool
  | [] => false
  | [n] => n.endsInString
  | _ :: n :: ns => Node.listEndsInString (n :: ns)

end

mutual

def Node.text : Node → Text
  | .token _ t => t.text
  | .function _ name arguments _ =>
    identifierText name ++ "(" ++ Node.listTextAfter none arguments ++
      (if Node.listEndsInString arguments then "" else ")")
  | .block _ b content _ => b.opening :: Node.listTextAfter none content ++ [b.closing]

def Node.listTextAfter : Option Kind → List Node → Text
  | _, [] => []
  | previous, n :: ns =>
    separatorText previous n ++ n.text ++ Node.listTextAfter (some n.kind) ns

end

def Node.listText (nodes : List Node) : Text := Node.listTextAfter none nodes

theorem Node.listText_nil : Node.listText [] = [] := rfl

theorem Node.listText_singleton (n : Node) : Node.listText [n] = n.text := by
  simp [Node.listText, Node.listTextAfter, separatorText]

end ColorCensus.Css
