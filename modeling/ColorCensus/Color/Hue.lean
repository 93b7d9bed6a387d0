import ColorCensus.Number.Decimal

namespace ColorCensus

structure Fractions where
  red : Binary64
  green : Binary64
  blue : Binary64
  deriving DecidableEq

namespace Fractions

def map (f : Binary64 → Binary64) (x : Fractions) : Fractions := ⟨f x.red, f x.green, f x.blue⟩

def gray (x : Binary64) : Fractions := ⟨x, x, x⟩

def oneThird : Binary64 := 1 / 3

def oneSixth : Binary64 := 1 / 6

def twoThirds : Binary64 := 2 / 3

def half : Binary64 := 1 / 2

def atHue (low high place : Binary64) : Binary64 :=
  let place := place % 1
  if place.lt oneSixth then low + (high - low) * place * 6
  else if place.lt half then high
  else if place.lt twoThirds then low + (high - low) * (twoThirds - place) * 6
  else low

def ofHue (hue lightness saturation : Binary64) : Fractions :=
  if saturation.toRat? = some 0 then gray lightness
  else
    let high :=
      if lightness.le half then lightness * (1 + saturation)
      else lightness + saturation - lightness * saturation
    let low := 2 * lightness - high
    ⟨atHue low high (hue + oneThird), atHue low high hue, atHue low high (hue - oneThird)⟩

theorem ofHue_zero_saturation (hue lightness : Binary64) :
    ofHue hue lightness (.finite 0) = gray lightness := rfl

end Fractions

end ColorCensus
