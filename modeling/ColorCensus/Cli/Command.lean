import ColorCensus.Census
import ColorCensus.Cli.Arguments

namespace ColorCensus.Cli

open Text

def usage : Text := "usage: css-color-inventory [-h] [--json] [--debug] [path]\n"

def help : Text :=
  usage ++ "
Count the color values used on themable CSS properties under a directory.

positional arguments:
  path        Directory to scan (prompted for when omitted)

options:
  -h, --help  show this help message and exit
  --json      Print the report as JSON
  --debug     Verbose debug logs
"

def Misuse.text (m : Misuse) : Text := usage ++ "css-color-inventory: error: " ++ m.message ++ "\n"

def prompt : Text := "What is the absolute path to DevTools frontend? "

structure Invocation where
  arguments : List Text
  input : Text
  topics : Text
  files : FileSystem
  program : Text
  stamp : Text

structure Response where
  prompt : Text
  output : Text
  errors : Text
  status : Nat
  deriving DecidableEq, Repr

def Response.stdout (r : Response) : Text := r.prompt ++ r.output

inductive Failure where
  | noInput
  | census (fault : Census.Fault)
  deriving DecidableEq, Repr

def Failure.message : Failure → Text
  | noInput => "EOF when reading a line"
  | census f => f.message

def Failure.text (f : Failure) : Text := "❌ Error: " ++ f.message ++ "\n"

def rootOf (options : Options) (input : Text) : Option Text :=
  match options.path with
  | some path => some path
  | none => firstLine (unifyNewlines input)

def topicsOf (options : Options) (setting : Text) : Topics :=
  if options.debug then (Topics.start setting).enable [Topics.every] else .start setting

def respond (i : Invocation) (options : Options) : Response :=
  let asked := if options.path.isNone then prompt else []
  match rootOf options i.input with
  | none => ⟨asked, [], Failure.noInput.text, 1⟩
  | some root =>
    let outcome := Census.takeStandard i.files ⟨i.program, none⟩ root
    let trace := Census.traceText (topicsOf options i.topics) i.stamp outcome.events
    match outcome.result with
    | .error f => ⟨asked, [], trace ++ (Failure.census f).text, 1⟩
    | .ok report => ⟨asked, report.printed options.json, trace, 0⟩

def run (i : Invocation) : Response :=
  match Request.ofArguments i.arguments with
  | .help => ⟨[], help, [], 0⟩
  | .misuse m => ⟨[], [], m.text, 2⟩
  | .census options => respond i options

theorem run_of_misuse {i : Invocation} {m : Misuse}
    (h : Request.ofArguments i.arguments = .misuse m) : (run i).status = 2 := by
  rw [run, h]

end ColorCensus.Cli
