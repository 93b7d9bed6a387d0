import ColorCensus.Number.Shortest

namespace ColorCensus

open Text

structure Rgba where
  red : Int
  green : Int
  blue : Int
  alpha : Binary64
  deriving DecidableEq

namespace Rgba

inductive Fault where
  | belowRange
  deriving DecidableEq, Repr

def Fault.message : Fault → Text
  | .belowRange => "int too large to convert to float"

def ofWhole (red green blue alpha : Int) : Except Fault Rgba :=
  match Binary64.ofInt alpha with
  | .infinite true => .error .belowRange
  | opacity => .ok ⟨red, green, blue, opacity⟩

def alphaPlaces : Nat := 3

def isOpaque (c : Rgba) : Bool := Binary64.le 1 c.alpha

def channelsText (c : Rgba) : Text :=
  join ", " [integer c.red, integer c.green, integer c.blue]

def text (c : Rgba) : Text :=
  if c.isOpaque then "rgb(" ++ c.channelsText ++ ")"
  else "rgba(" ++ c.channelsText ++ ", " ++ (c.alpha.round alphaPlaces).toGeneral ++ ")"

def write (limit : DigitLimit) (c : Rgba) : Except TooManyDigits Text :=
  (limit.check [c.red, c.green, c.blue]).map fun _ => c.text

end Rgba

end ColorCensus
