import ColorCensus.FileSystem.RealPath
import ColorCensus.Json.Reader
import ColorCensus.Number.Shortest
import ColorCensus.Text.Utf8

namespace ColorCensus.AllowList

open Text FileSystem

inductive Fault where
  | noDirectory (tried : List AbsolutePath)
  | noRealPath (fault : RealPathFault)
  | unusable (fault : PathFault)
  | outside (path base : AbsolutePath)
  | missing (path : AbsolutePath)
  | undecodable (fault : Utf8.Fault)
  | tooManyDigits (fault : TooManyDigits)
  | invalid (path : AbsolutePath) (reason : Text)
  | notList (name kind : Text)
  | notScalars (name : Text) (kinds : List Text)
  | empty
  deriving DecidableEq, Repr

def standard : Text := "themable_properties"

def Fault.message : Fault → Text
  | noDirectory tried =>
    "No 'data' directory found.\nTried:\n  " ++ join "\n  " (tried.map AbsolutePath.text)
  | noRealPath f => f.message
  | unusable f => f.message
  | outside path base =>
    "Refusing to access file outside data dir: " ++ path.text ++ " (base=" ++ base.text ++ ")"
  | missing path => "Config file not found: " ++ path.text
  | undecodable f => f.message
  | tooManyDigits f => f.readingMessage
  | invalid path reason => "Invalid JSON in " ++ path.text ++ ": " ++ reason
  | notList name kind => name ++ ": expected a list, got " ++ kind
  | notScalars name kinds =>
    name ++ ": list must contain only scalars (first bad types: " ++ join ", " kinds ++ ")"
  | empty => standard ++ ".json: allow-list is empty"

def kindOf : Json.Value → Text
  | .null => "NoneType"
  | .boolean _ => "bool"
  | .integer _ => "int"
  | .real _ => "float"
  | .string _ => "str"
  | .array _ => "list"
  | .object _ => "dict"

def item? : Json.Value → Option Text
  | .boolean b => some (if b then "True" else "False")
  | .integer n => some (integer n)
  | .real x => some x.toShortest
  | .string s => some s
  | _ => none

def ofValues (name : Text) (values : List Json.Value) : Except Fault (List Text) :=
  match values.filter fun v => (item? v).isNone with
  | [] => .ok (values.filterMap item?).eraseDups
  | v :: vs => .error (.notScalars name (((v :: vs).take 3).map kindOf))

def ofValue (name : Text) : Json.Value → Except Fault (List Text)
  | .array values => ofValues name values
  | v => .error (.notList name (kindOf v))

def ofText (path : AbsolutePath) (document : Text) : Except Fault (List Text) :=
  match Json.parse .standard document with
  | .error ⟨.tooManyDigits f, _⟩ => .error (.tooManyDigits f)
  | .error f => .error (.invalid path (f.message document))
  | .ok v => ofValue path.name v

def ofBytes (path : AbsolutePath) (content : List UInt8) : Except Fault (List Text) :=
  match Utf8.decode content with
  | .error f => .error (.undecodable f)
  | .ok document => ofText path document

theorem ofBytes_of_decode_error {path : AbsolutePath} {content : List UInt8} {f : Utf8.Fault}
    (h : Utf8.decode content = .error f) : ofBytes path content = .error (.undecodable f) := by
  rw [ofBytes, h]

def directoryName : Text := "data"

def candidates (fs : FileSystem) (start : Text) : Except Fault (List AbsolutePath) :=
  match fs.realPath fs.current start with
  | .error f => .error (.noRealPath f)
  | .ok path =>
    (path.location.lineage.mapM fun l => fs.realPath l directoryName).mapError Fault.noRealPath

def firstDirectory? (fs : FileSystem) : List AbsolutePath → Except PathFault (Option AbsolutePath)
  | [] => .ok none
  | path :: paths =>
    (fs.probe path).bind fun entry =>
      if entry = some .directory then .ok (some path) else firstDirectory? fs paths

def nearest (fs : FileSystem) (start : Text) : Except Fault AbsolutePath :=
  (candidates fs start).bind fun tried =>
    match firstDirectory? fs tried with
    | .ok (some path) => .ok path
    | .ok none => .error (.noDirectory tried)
    | .error f => .error (.unusable f)

structure Source where
  program : Text
  directory : Option Text
  deriving DecidableEq, Repr

def Source.base (source : Source) (fs : FileSystem) : Except Fault AbsolutePath :=
  match source.directory with
  | some path => (fs.realPath fs.current path).mapError Fault.noRealPath
  | none => nearest fs source.program

def fileName (name : Text) : Text := if endsWith ".json" name then name else name ++ ".json"

def nanosecondsPerSecond : Int := 1000000000

def seconds (nanoseconds : Int) : Binary64 :=
  .ofInt (nanoseconds / nanosecondsPerSecond) +
    .ofRat (1 / nanosecondsPerSecond) * .ofInt (nanoseconds % nanosecondsPerSecond)

structure Located where
  path : AbsolutePath
  content : List UInt8
  modified : Binary64
  deriving DecidableEq

def locateIn (fs : FileSystem) (base : AbsolutePath) (name : Text) : Except Fault Located :=
  match fs.realPath base.location (fileName name) with
  | .error f => .error (.noRealPath f)
  | .ok path =>
    if base.within path then
      match fs.probe path with
      | .error f => .error (.unusable f)
      | .ok (some (.file content modified)) => .ok ⟨path, content, seconds modified⟩
      | .ok _ => .error (.missing path)
    else .error (.outside path base)

def locate (fs : FileSystem) (source : Source) (name : Text) : Except Fault Located :=
  (source.base fs).bind fun base => locateIn fs base name

abbrev Cache := List ((AbsolutePath × Binary64) × List Text)

def load (fs : FileSystem) (source : Source) (cache : Cache) (name : Text) :
    Except Fault (List Text) × Cache :=
  match locate fs source name with
  | .error f => (.error f, cache)
  | .ok file =>
    match cache.lookup (file.path, file.modified) with
    | some items => (.ok items, cache)
    | none =>
      match ofBytes file.path file.content with
      | .error f => (.error f, cache)
      | .ok items => (.ok items, ((file.path, file.modified), items) :: cache)

theorem load_of_error {fs : FileSystem} {source : Source} {cache : Cache} {name : Text} {f : Fault}
    (h : locate fs source name = .error f) : load fs source cache name = (.error f, cache) := by
  rw [load, h]

def loadStandard (fs : FileSystem) (source : Source) (cache : Cache) :
    Except Fault (List Text) × Cache :=
  let (items, cache) := load fs source cache standard
  match items with
  | .ok [] => (.error .empty, cache)
  | items => (items, cache)

end ColorCensus.AllowList
