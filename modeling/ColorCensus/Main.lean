import ColorCensus.Cli.Command
import ColorCensus.FileSystem.Change
import Std.Time

namespace ColorCensus

structure Picture where
  files : FileSystem
  listed : List Location

namespace Picture

def locationOf (path : String) : Location := (Path.steps path).reverse

def above (path : String) : String := Text.asString (Location.text (locationOf path).tail)

def below (directory : String) (name : Text) : String :=
  Text.asString (Path.child directory name)

def add (p : Picture) (path : String) (entry : Entry) : Picture :=
  { p with files := p.files.write (locationOf path) entry }

def isRead (path : String) : Bool :=
  Text.endsWith stylesheetEnding path || Text.endsWith ".json" path

def addFile (p : Picture) (path : String) : IO Picture := do
  let here ← IO.currentDir
  let changed := (← (here / path).metadata).modified
  let bytes ← if isRead path then IO.FS.readBinFile path else pure .empty
  return p.add path (.file bytes.toList (changed.sec * 1000000000 + changed.nsec.toNat))

def nowhere : Text := '/' :: Text.copies FileSystem.nameLimit '\x01'

def readLink (path : String) : IO (Option String × Entry) := do
  let here ← IO.currentDir
  match ← (here / path).metadata.toBaseIO with
  | .error (.noFileOrDirectory ..) => return (none, .link nowhere)
  | .error _ => return (none, .link path)
  | .ok _ =>
    let target := (← IO.FS.realPath path).toString
    return (some target, .link target)

mutual

partial def visit (p : Picture) (path : String) : IO (Picture × Option String) := do
  let here ← IO.currentDir
  match ← (here / path).symlinkMetadata.toBaseIO with
  | .error _ => return (p, none)
  | .ok found =>
    if found.type == .dir then return (p.add path .directory, some path)
    else if found.type == .symlink then
      let (target, entry) ← readLink path
      match target with
      | none => return (p.add path entry, none)
      | some goal =>
        let (p, _) ← visit (p.add path entry) goal
        return (p, some goal)
    else return (← p.addFile path, some path)

partial def list (p : Picture) (directory : String) : IO Picture := do
  let here ← IO.currentDir
  let location := locationOf directory
  if p.listed.contains location || !p.files.isDirectory location then return p
  let mut p := { p with listed := location :: p.listed }
  for entry in ← (here / directory).readDir do
    let (seen, goal) ← visit p (below directory entry.fileName)
    p := seen
    if let some goal := goal then p ← list p goal
  return p

end

partial def trace (p : Picture) (directory : String) : List Text → IO (Picture × Option String)
  | [] => return (p, some directory)
  | name :: names => do
    if name = [] || name = Path.here then trace p directory names
    else if name = Path.above then trace p (above directory) names
    else
      let (p, goal) ← visit p (below directory name)
      match goal with
      | none => return (p, none)
      | some goal => trace p goal names

def traceFrom (p : Picture) (path : Text) : IO (Picture × Option String) := do
  let names := Path.names path
  let here ← IO.currentDir
  trace p (if Path.isAbsolute names then "/" else here.toString) names

partial def addData (p : Picture) : Location → IO Picture
  | [] => return p
  | _ :: parent => do
    let (p, goal) ← trace p (Text.asString (Location.text parent)) [AllowList.directoryName]
    let p ← match goal with
      | some goal => list p goal
      | none => pure p
    addData p parent

def take (program : String) (path : Option Text) : IO Picture := do
  let current := locationOf (← IO.currentDir).toString
  let start : Picture := ⟨(FileSystem.empty current).write current .directory, []⟩
  let start ← addData start (locationOf program)
  match path with
  | none => return start
  | some path =>
    let (p, goal) ← traceFrom start path
    match goal with
    | some goal => list p goal
    | none => return p

end Picture

def currentStamp : IO Text := do
  return ((← Std.Time.PlainDateTime.now).format "uuuu-MM-dd HH:mm:ss")

def command (arguments : List String) : IO UInt32 := do
  let arguments := arguments.map Text.ofString
  let output ← IO.getStdout
  let errors ← IO.getStderr
  let request := Cli.Request.ofArguments arguments
  let input ← match request with
    | .census ⟨none, _, _⟩ => do
      output.putStr (Text.asString Cli.prompt)
      output.flush
      (← IO.getStdin).getLine
    | _ => pure ""
  let root := match request with
    | .census options => Cli.rootOf options input
    | _ => none
  let program := (← IO.appPath).toString
  let picture ← Picture.take program root
  let response := Cli.run {
    arguments
    input := input
    topics := (← IO.getEnv "CSS_INVENTORY_DEBUG_TOPICS").getD ""
    files := picture.files
    program := program
    stamp := ← currentStamp }
  errors.putStr (Text.asString response.errors)
  output.putStr (Text.asString response.output)
  return response.status.toUInt32

end ColorCensus

def main (arguments : List String) : IO UInt32 := ColorCensus.command arguments
