import ColorCensus.Text.Digit
import ColorCensus.Text.Printable

namespace ColorCensus.Cli

open Text

inductive Switch where
  | help
  | json
  | debug
  deriving DecidableEq, Repr

namespace Switch

def all : List Switch := [help, json, debug]

def long : Switch → Text
  | help => "--help"
  | json => "--json"
  | debug => "--debug"

def names : Switch → Text
  | help => "-h/--help"
  | s => s.long

def matching (name : Text) : List Switch := all.filter fun s => startsWith name s.long

theorem mem_matching {name : Text} {s : Switch} :
    s ∈ matching name ↔ startsWith name s.long = true := by
  cases s <;> simp [matching, all]

end Switch

inductive Misuse where
  | ambiguous (argument : Text)
  | valued (switch : Switch) (value : Text)
  | unrecognized (arguments : List Text)
  deriving DecidableEq, Repr

def Misuse.message : Misuse → Text
  | ambiguous argument =>
    "ambiguous option: " ++ argument ++ " could match " ++ join ", " (Switch.all.map Switch.long)
  | valued s value => "argument " ++ s.names ++ ": ignored explicit argument " ++ quoted value
  | unrecognized arguments => "unrecognized arguments: " ++ join " " arguments

inductive Argument where
  | plain (text : Text)
  | switch (s : Switch)
  | valued (s : Switch) (value : Text)
  | unknown (text : Text)
  | separator
  deriving DecidableEq, Repr

namespace Argument

def doubleDash : Text := "--"

def cut (argument : Text) : Text × Option Text :=
  match argument.dropWhile (· ≠ CodePoint.char '=') with
  | [] => (argument, none)
  | _ :: value => (argument.takeWhile (· ≠ '='), some value)

def ofSwitch (s : Switch) : Option Text → Argument
  | none => switch s
  | some value => valued s value

def ofTail (tail : Text) : Argument :=
  match tail.dropWhile (· = CodePoint.char 'h') with
  | [] => if tail = [] then valued .help [] else switch .help
  | value => valued .help value

def isNegativeWhole (s : Text) : Bool := s ≠ [] && s.all isNumeral

def isNegativeNumber : Text → Bool
  | '-' :: s =>
    let digits := if endsWith ['\n'] s then s.dropLast else s
    isNegativeWhole digits ||
      match digits.dropWhile isNumeral with
      | '.' :: fraction => isNegativeWhole fraction
      | _ => false
  | _ => false

def ofOther (argument : Text) : Argument :=
  if isNegativeNumber argument || argument.contains ' ' then plain argument else unknown argument

def ofLong (argument : Text) : Except Misuse Argument :=
  match Switch.matching (cut argument).1 with
  | [] => .ok (ofOther argument)
  | [s] => .ok (ofSwitch s (cut argument).2)
  | _ => .error (.ambiguous argument)

def ofShort : Text → Argument
  | [] => switch .help
  | '=' :: value => ofTail value
  | tail => ofTail tail

def classify (argument : Text) : Except Misuse Argument :=
  match argument with
  | '-' :: '-' :: _ => ofLong argument
  | '-' :: 'h' :: tail => .ok (ofShort tail)
  | '-' :: _ :: _ => .ok (ofOther argument)
  | _ => .ok (plain argument)

def readAll : List Text → Except Misuse (List Argument)
  | [] => .ok []
  | argument :: arguments =>
    if argument = doubleDash then .ok (separator :: arguments.map plain)
    else do
      let first ← classify argument
      let rest ← readAll arguments
      return first :: rest

end Argument

structure Options where
  path : Option Text
  json : Bool
  debug : Bool
  deriving DecidableEq, Repr

inductive Request where
  | help
  | misuse (fault : Misuse)
  | census (options : Options)
  deriving DecidableEq, Repr

structure Gathered where
  options : Options
  extra : List Text
  atPath : Bool
  deriving DecidableEq, Repr

namespace Gathered

def start : Gathered := ⟨⟨none, false, false⟩, [], false⟩

def addExtra (g : Gathered) (text : Text) : Gathered :=
  { g with extra := g.extra ++ [text], atPath := false }

def addPlain (g : Gathered) (text : Text) : Gathered :=
  match g.options.path with
  | none => { g with options := { g.options with path := some text }, atPath := true }
  | some _ => g.addExtra text

def addSeparator (g : Gathered) : Gathered :=
  if g.options.path.isNone || g.atPath then { g with atPath := false }
  else g.addExtra Argument.doubleDash

def addJson (g : Gathered) : Gathered :=
  { g with options := { g.options with json := true }, atPath := false }

def addDebug (g : Gathered) : Gathered :=
  { g with options := { g.options with debug := true }, atPath := false }

def request (g : Gathered) : List Argument → Request
  | [] => if g.extra = [] then .census g.options else .misuse (.unrecognized g.extra)
  | .plain text :: rest => (g.addPlain text).request rest
  | .separator :: rest => g.addSeparator.request rest
  | .unknown text :: rest => (g.addExtra text).request rest
  | .valued s value :: _ => .misuse (.valued s value)
  | .switch .help :: _ => .help
  | .switch .json :: rest => g.addJson.request rest
  | .switch .debug :: rest => g.addDebug.request rest

end Gathered

def Request.ofArguments (arguments : List Text) : Request :=
  match Argument.readAll arguments with
  | .error fault => .misuse fault
  | .ok arguments => Gathered.start.request arguments

theorem Request.ofArguments_nil : ofArguments [] = .census ⟨none, false, false⟩ := rfl

end ColorCensus.Cli
