import ColorCensus.Color.Hue
import ColorCensus.Color.Named
import ColorCensus.Css.Node

namespace ColorCensus.Color

open Text Css

structure Shade where
  channels : Fractions
  alpha : Binary64
  deriving DecidableEq

inductive Fault where
  | noSpace
  deriving DecidableEq, Repr

def numberValue (text : Text) : Binary64 := (Decimal.read text).toBinary64

inductive Argument where
  | number (value : Binary64)
  | percentage (value : Binary64)
  | angle (value : Binary64) (unit : Text)
  | absent
  | other
  deriving DecidableEq

def Argument.ofNode : Node → Argument
  | .token _ (.number text) => number (numberValue text)
  | .token _ (.percentage text) => percentage (numberValue text)
  | .token _ (.dimension text unit) => angle (numberValue text) unit
  | .token _ (.ident name) => if asciiLower name = "none" then absent else other
  | _ => other

def Argument.isNumber : Argument → Bool
  | number _ => true
  | absent => true
  | _ => false

def Argument.isPercentage : Argument → Bool
  | percentage _ => true
  | absent => true
  | _ => false

def Argument.isAmount (a : Argument) : Bool := a.isNumber || a.isPercentage

def Argument.value : Argument → Binary64
  | number x => x
  | percentage x => x
  | angle x _ => x
  | _ => 0

def Argument.portion : Argument → Binary64
  | percentage x => x / 100
  | a => a.value

def alphaOf : List Node → Option Binary64
  | [] => some 1
  | [n] =>
    match Argument.ofNode n with
    | .number x => some x.unitClamp
    | .percentage x => some (x / 100).unitClamp
    | _ => none
  | _ => none

def degreesPerRadian : Binary64 := (Decimal.read "57.29577951308232").toBinary64

def Argument.hue : Argument → Option Binary64
  | number x => some (x % 360)
  | absent => some 0
  | angle x unit =>
    if unit = "deg" then some (x % 360)
    else if unit = "grad" then some (x / 400 * 360 % 360)
    else if unit = "rad" then some (x * degreesPerRadian % 360)
    else if unit = "turn" then some (x * 360 % 360)
    else none
  | _ => none

def rgbOf (red green blue : Argument) : Option Fractions :=
  let all := [red, green, blue]
  if all.all Argument.isNumber then some ⟨red.value / 255, green.value / 255, blue.value / 255⟩
  else if all.all Argument.isPercentage then
    some ⟨red.value / 100, green.value / 100, blue.value / 100⟩
  else none

def hslOf (hue saturation lightness : Argument) : Option Fractions :=
  let amounts := [saturation, lightness]
  if amounts.all Argument.isNumber || amounts.all Argument.isPercentage then
    hue.hue.map fun degrees =>
      .ofHue (degrees / 360) (lightness.value / 100) (saturation.value / 100)
  else none

def mix (degrees white black : Binary64) : Fractions :=
  if Binary64.le 100 (white + black) then .gray (white / (white + black))
  else
    (Fractions.ofHue (degrees / 360) Fractions.half 1).map fun x =>
      (x * (100 - white - black) + white) / 100

def hwbOf (hue white black : Argument) : Option Fractions :=
  if [white, black].all Argument.isAmount then
    hue.hue.map fun degrees => mix degrees white.value black.value
  else none

def srgbOf (space : Node) (red green blue : Argument) : Option Fractions :=
  match space with
  | .token _ (.ident name) =>
    if asciiLower name = "srgb" ∧ [red, green, blue].all Argument.isAmount then
      some ⟨red.portion, green.portion, blue.portion⟩
    else none
  | _ => none

structure Arguments where
  first : Node
  second : Node
  third : Node
  alpha : List Node
  commas : Bool

def Arguments.ofNodes : List Node → Option Arguments
  | [a, b, c] => some ⟨a, b, c, [], false⟩
  | [a, s, b, t, c] =>
    if s.isDelimiter [','] ∧ t.isDelimiter [','] then some ⟨a, b, c, [], true⟩
    else if t.isDelimiter ['/'] then some ⟨a, s, b, [c], false⟩
    else none
  | [a, s, b, t, c, u, d] =>
    if s.isDelimiter [','] ∧ t.isDelimiter [','] ∧ u.isDelimiter [','] then
      some ⟨a, b, c, [d], true⟩
    else none
  | _ => none

def functionChannels (name : Text) (space : Option Node) (a : Arguments) : Option Fractions :=
  let first := Argument.ofNode a.first
  let second := Argument.ofNode a.second
  let third := Argument.ofNode a.third
  if name = "rgb" ∨ name = "rgba" then rgbOf first second third
  else if name = "hsl" ∨ name = "hsla" then hslOf first second third
  else if name = "hwb" then hwbOf first second third
  else if name = "color" ∧ a.commas = false then
    space.bind fun space => srgbOf space first second third
  else none

def functionShade (name : Text) (space : Option Node) (arguments : List Node) : Option Shade := do
  let a ← Arguments.ofNodes arguments
  let alpha ← alphaOf a.alpha
  let channels ← functionChannels name space a
  return ⟨channels, alpha⟩

def byteFraction (n : Nat) : Binary64 := .ofInt n / 255

def Shade.ofBytes (red green blue alpha : Nat) : Shade :=
  ⟨⟨byteFraction red, byteFraction green, byteFraction blue⟩, byteFraction alpha⟩

def hexPair (c d : CodePoint) : Nat := ofHex [c, d]

def hexShade (s : Text) : Option Shade :=
  if s.all isHex then
    match s with
    | [r, g, b] => some (.ofBytes (hexPair r r) (hexPair g g) (hexPair b b) 255)
    | [r, g, b, a] => some (.ofBytes (hexPair r r) (hexPair g g) (hexPair b b) (hexPair a a))
    | [r, r', g, g', b, b'] => some (.ofBytes (hexPair r r') (hexPair g g') (hexPair b b') 255)
    | [r, r', g, g', b, b', a, a'] =>
      some (.ofBytes (hexPair r r') (hexPair g g') (hexPair b b') (hexPair a a'))
    | _ => none
  else none

def hashShade (s : Text) : Option Shade :=
  if s.getLast? = some '\n' then hexShade s.dropLast else hexShade s

def keywordShade (name : Text) : Option Shade :=
  if name = "transparent" then some (.ofBytes 0 0 0 0)
  else (ofKeyword name).map fun c => .ofBytes c.red c.green c.blue 255

def nodeShade : Node → Except Fault (Option Shade)
  | .token _ (.ident name) => .ok (keywordShade (asciiLower name))
  | .token _ (.hash name _) => .ok (hashShade name)
  | .function _ name arguments _ =>
    let name := asciiLower name
    let arguments := arguments.filter fun n => !n.isSpace
    if name = "color" then
      match arguments with
      | [] => .error .noSpace
      | space :: arguments => .ok (functionShade name (some space) arguments)
    else .ok (functionShade name none arguments)
  | _ => .ok none

def shade (s : Text) : Except Fault (Option Shade) :=
  match (Node.read s).filter fun n => !n.isSpace with
  | [n] => nodeShade n
  | _ => .ok none

def Fault.message : Fault → Text
  | .noSpace => "not enough values to unpack (expected at least 1, got 0)"

end ColorCensus.Color
