import ColorCensus.FileSystem.Change
import ColorCensus.FileSystem.Resolve

namespace ColorCensus.FileSystem

open Text

structure Slot where
  directory : Place
  name : Text
  slashed : Bool
  entry : Option Entry

def Slot.location (s : Slot) : Location := s.directory.location.step s.name

def slotAlong (fs : FileSystem) (links : Nat) (location : Location) (names : List Text) :
    Except Cause Slot :=
  let cut := Path.Cut.ofNames names
  (fs.follow links location cut.before).bind fun p =>
    if fs.isDirectory p.location then
      if cut.last = [] ∨ cut.last = Path.here ∨ cut.last = Path.above then
        .ok ⟨p, cut.last, cut.slashed, some .directory⟩
      else if isTooLong nameLimit cut.last then .error .nameTooLong
      else .ok ⟨p, cut.last, cut.slashed, fs.lookup? (cut.last :: p.location)⟩
    else .error .notDirectory

theorem slotAlong_links_le {fs : FileSystem} {links : Nat} {location : Location}
    {names : List Text} {s : Slot} (h : fs.slotAlong links location names = .ok s) :
    s.directory.links ≤ links := by
  rw [slotAlong] at h
  cases hf : fs.follow links location (Path.Cut.ofNames names).before with
  | error c => simp [hf, Except.bind] at h
  | ok p =>
    have hp := follow_links_le hf
    simp only [hf, Except.bind] at h
    split at h
    · split at h
      · rw [← Except.ok.inj h]
        exact hp
      · split at h
        · simp at h
        · rw [← Except.ok.inj h]
          exact hp
    · simp at h

def slot (fs : FileSystem) (path : Text) : Except Cause Slot :=
  (namesOf path).bind fun names => fs.slotAlong linkLimit (fs.current.origin names) names

def fileAlong (fs : FileSystem) (links : Nat) (location : Location) (names : List Text) :
    Except Cause Location :=
  match _h : fs.slotAlong links location names with
  | .error cause => .error cause
  | .ok s =>
    if s.slashed then .error .isDirectory
    else
      match s.entry with
      | some .directory => .error .isDirectory
      | some (.link target) =>
        match _hl : s.directory.links with
        | 0 => .error .tooManyLinks
        | left + 1 =>
          fs.fileAlong left (s.directory.location.origin (Path.names target)) (Path.names target)
      | _ => .ok s.location
termination_by links
decreasing_by exact Nat.lt_of_succ_le (_hl ▸ slotAlong_links_le _h)

def writeFile (fs : FileSystem) (path : Text) (entry : Entry) : Except Cause FileSystem :=
  (namesOf path).bind fun names =>
    (fs.fileAlong linkLimit (fs.current.origin names) names).map fun l => fs.insert l entry

def makeLink (fs : FileSystem) (target path : Text) : Except Cause FileSystem :=
  (namesOf target).bind fun _ =>
    (fs.slot path).bind fun s =>
      if s.entry.isSome then .error .occupied
      else if s.slashed then .error .missing
      else .ok (fs.insert s.location (.link target))

def makeDirectory (fs : FileSystem) (path : Text) : Except Cause FileSystem :=
  (fs.slot path).bind fun s =>
    if s.entry.isSome then .error .occupied else .ok (fs.insert s.location .directory)

def remove (fs : FileSystem) (path : Text) : Except Cause FileSystem :=
  (fs.slot path).bind fun s =>
    match s.entry with
    | none => .error .missing
    | some .directory => .error .isDirectory
    | some _ => if s.slashed then .error .notDirectory else .ok (fs.erase s.location)

def entryAt (fs : FileSystem) (path : Text) : Except Cause (Option Entry) :=
  match fs.resolve path with
  | .ok p => .ok (fs.lookup? p.location)
  | .error .nameTooLong => .error .nameTooLong
  | .error _ => .ok none

structure EditFault where
  cause : Cause
  path : Text
  target : Option Text
  deriving DecidableEq, Repr

def EditFault.message (f : EditFault) : Text :=
  match f.target with
  | none => f.cause.message (quoted f.path)
  | some target => f.cause.message (quoted target ++ " -> " ++ quoted f.path)

structure Edited where
  files : FileSystem
  fault : Option EditFault

def Edited.ofResult (fs : FileSystem) (path : Text) (target : Option Text) :
    Except Cause FileSystem → Edited
  | .ok files => ⟨files, none⟩
  | .error cause => ⟨fs, some ⟨cause, path, target⟩⟩

def provideOne (fs : FileSystem) (path : Text) : Edited :=
  match fs.makeDirectory path with
  | .error .occupied =>
    match fs.entryAt path with
    | .ok (some .directory) => ⟨fs, none⟩
    | .ok _ => ⟨fs, some ⟨.occupied, path, none⟩⟩
    | .error cause => ⟨fs, some ⟨cause, path, none⟩⟩
  | made => .ofResult fs path none made

def provide (fs : FileSystem) (root : Text) : List Text → Edited
  | [] => fs.provideOne (Path.ofSteps root [])
  | step :: above =>
    let path := Path.ofSteps root (step :: above).reverse
    let first := fs.provideOne path
    match first.fault with
    | some ⟨.missing, _, _⟩ =>
      let ready := fs.provide root above
      match ready.fault with
      | some _ => ready
      | none => ready.files.provideOne path
    | _ => first

def make (fs : FileSystem) (path : Text) (entry : Entry) : Edited :=
  let short := Path.normal path
  let ready := fs.provide (Path.root path) (Path.steps path).reverse.tail
  match ready.fault, entry with
  | some _, _ => ready
  | none, .directory => ready.files.provideOne short
  | none, .link target =>
    .ofResult ready.files short (some target) (ready.files.makeLink target short)
  | none, .file .. => .ofResult ready.files short none (ready.files.writeFile short entry)

end ColorCensus.FileSystem
