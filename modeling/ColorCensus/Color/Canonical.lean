import ColorCensus.Color.Rgba
import ColorCensus.Color.Spelling

namespace ColorCensus.Color

open Text

def toChannel (fraction : Binary64) : Option Int :=
  if fraction.isFinite then
    some ((fraction.unitClamp * 255).round 6 + Fractions.half).floor
  else none

def Shade.rgba? (s : Shade) : Option Rgba := do
  let red ← toChannel s.channels.red
  let green ← toChannel s.channels.green
  let blue ← toChannel s.channels.blue
  if s.alpha.isFinite then
    return ⟨red, green, blue, s.alpha.unitClamp.round Rgba.alphaPlaces⟩
  else none

def solid (c : Rgb) : Rgba := ⟨c.red, c.green, c.blue, 1⟩

def read (text : Text) : Except Fault (Option Rgba) :=
  let t := lower (strip text)
  if t = [] then .ok none
  else if startsWith ['#'] t || t.contains '(' then
    (shade t).map fun s => s.bind Shade.rgba?
  else if t = "transparent" then .ok (some ⟨0, 0, 0, 0⟩)
  else .ok ((named t).map solid)

def normalize (text : Text) : Except Fault (Option Text) :=
  (read text).map fun c => c.map Rgba.text

theorem normalize_nil : normalize [] = .ok none := rfl

def canonical? (text : Text) : Option Text := (normalize text).toOption.bind id

theorem canonical?_of_normalize {text : Text} {c : Option Text} (h : normalize text = .ok c) :
    canonical? text = c := by
  simp [canonical?, h, Except.toOption]

end ColorCensus.Color
