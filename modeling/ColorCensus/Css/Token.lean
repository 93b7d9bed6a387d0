import ColorCensus.Css.Name

namespace ColorCensus.Css

inductive Bracket where
  | round
  | square
  | curly
  deriving DecidableEq, Repr

def Bracket.opening : Bracket → CodePoint
  | .round => '('
  | .square => '['
  | .curly => '\x7b'

def Bracket.closing : Bracket → CodePoint
  | .round => ')'
  | .square => ']'
  | .curly => '\x7d'

def Bracket.opened? (c : CodePoint) : Option Bracket :=
  if c = '(' then some .round else if c = '[' then some .square
  else if c = '\x7b' then some .curly else none

def Bracket.closed? (c : CodePoint) : Option Bracket :=
  if c = ')' then some .round else if c = ']' then some .square
  else if c = '\x7d' then some .curly else none

theorem Bracket.opened?_opening (b : Bracket) : Bracket.opened? b.opening = some b := by
  cases b <;> rfl

theorem Bracket.closed?_closing (b : Bracket) : Bracket.closed? b.closing = some b := by
  cases b <;> rfl

inductive TokenFault where
  | brokenString
  | brokenUrl
  | unfinishedString
  | unfinishedUrl
  | unmatched (bracket : Bracket)
  deriving DecidableEq, Repr

inductive Token where
  | space (text : Text)
  | ident (name : Text)
  | atKeyword (name : Text)
  | hash (name : Text) (isIdentifier : Bool)
  | string (value : Text) (closed : Bool)
  | url (value : Text) (closed : Bool)
  | unicodeRange (first last : Nat)
  | number (text : Text)
  | percentage (text : Text)
  | dimension (text : Text) (unit : Text)
  | delimiter (text : Text)
  | fault (fault : TokenFault)
  deriving DecidableEq, Repr

def Token.isSpace : Token → Bool
  | .space _ => true
  | _ => false

def Token.isDelimiter (text : Text) : Token → Bool
  | .delimiter t => t == text
  | _ => false

theorem Token.isDelimiter_iff {text : Text} {t : Token} :
    t.isDelimiter text = true ↔ t = .delimiter text := by
  cases t <;> simp [Token.isDelimiter]

inductive Lexeme where
  | token (token : Token)
  | opensFunction (name : Text)
  | opens (bracket : Bracket)
  | closes (bracket : Bracket)
  deriving DecidableEq, Repr

end ColorCensus.Css
