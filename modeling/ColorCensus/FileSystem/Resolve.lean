import ColorCensus.FileSystem.Basic
import ColorCensus.Text.Printable
import ColorCensus.Text.Utf8

namespace ColorCensus.FileSystem

open Text

inductive Cause where
  | missing
  | occupied
  | notDirectory
  | isDirectory
  | nameTooLong
  | tooManyLinks
  | nullCharacter
  | unencodable (fault : Utf8.EncodeFault)
  deriving DecidableEq, Repr

def Cause.number : Cause → Option Nat
  | missing => some 2
  | occupied => some 17
  | notDirectory => some 20
  | isDirectory => some 21
  | nameTooLong => some 36
  | tooManyLinks => some 40
  | nullCharacter => none
  | unencodable _ => none

def Cause.text : Cause → Text
  | missing => "No such file or directory"
  | occupied => "File exists"
  | notDirectory => "Not a directory"
  | isDirectory => "Is a directory"
  | nameTooLong => "File name too long"
  | tooManyLinks => "Too many levels of symbolic links"
  | nullCharacter => "embedded null byte"
  | unencodable f => f.message

def Cause.message (cause : Cause) (subject : Text) : Text :=
  match cause.number with
  | some n => "[Errno " ++ natural n ++ "] " ++ cause.text ++ ": " ++ subject
  | none => cause.text

structure PathFault where
  cause : Cause
  path : Text
  deriving DecidableEq, Repr

def PathFault.message (f : PathFault) : Text := f.cause.message (quoted f.path)

def nameLimit : Nat := 255

def pathLimit : Nat := 4095

def isTooLong (limit : Nat) (s : Text) : Bool := decide (limit < Utf8.size s)

structure Place where
  location : Location
  links : Nat
  deriving DecidableEq, Repr

inductive Halt where
  | arrived (location : Location)
  | link (directory : Location) (target : Text) (rest : List Text)
  deriving DecidableEq, Repr

def advance (fs : FileSystem) (location : Location) : List Text → Except Cause Halt
  | [] => .ok (.arrived location)
  | name :: rest =>
    if fs.isDirectory location then
      if name = [] ∨ name = Path.here ∨ name = Path.above then
        fs.advance (location.step name) rest
      else if isTooLong nameLimit name then .error .nameTooLong
      else
        match fs.lookup? (name :: location) with
        | none => .error .missing
        | some (.link target) => .ok (.link location target rest)
        | some _ => fs.advance (name :: location) rest
    else .error .notDirectory

def follow (fs : FileSystem) : Nat → Location → List Text → Except Cause Place
  | 0, location, names =>
    (fs.advance location names).bind fun halt =>
      match halt with
      | .arrived location => .ok ⟨location, 0⟩
      | .link .. => .error .tooManyLinks
  | links + 1, location, names =>
    (fs.advance location names).bind fun halt =>
      match halt with
      | .arrived location => .ok ⟨location, links + 1⟩
      | .link directory target rest =>
        fs.follow links (directory.origin (Path.names target)) (Path.names target ++ rest)

theorem follow_links_le {fs : FileSystem} {links : Nat} {location : Location} {names : List Text}
    {p : Place} (h : fs.follow links location names = .ok p) : p.links ≤ links := by
  induction links generalizing location names with
  | zero =>
    rw [follow] at h
    cases ha : fs.advance location names with
    | error c => simp [ha, Except.bind] at h
    | ok halt =>
      cases halt <;> simp only [ha, Except.bind, Except.ok.injEq, reduceCtorEq] at h
      simp [← h]
  | succ links ih =>
    rw [follow] at h
    cases ha : fs.advance location names with
    | error c => simp [ha, Except.bind] at h
    | ok halt =>
      cases halt with
      | arrived l =>
        simp only [ha, Except.bind, Except.ok.injEq] at h
        simp [← h]
      | link d t r =>
        simp only [ha, Except.bind] at h
        exact Nat.le_succ_of_le (ih h)

def linkLimit : Nat := 40

def refusal? (path : Text) : Option Cause :=
  match Utf8.encodeFault? path with
  | some f => some (.unencodable f)
  | none => if path.contains '\x00' then some .nullCharacter else none

def namesOf (path : Text) : Except Cause (List Text) :=
  match refusal? path with
  | some cause => .error cause
  | none =>
    if isTooLong pathLimit path then .error .nameTooLong
    else if path = [] then .error .missing
    else .ok (Path.names path)

def resolve (fs : FileSystem) (path : Text) : Except Cause Place :=
  (namesOf path).bind fun names => fs.follow linkLimit (fs.current.origin names) names

theorem resolve_nil (fs : FileSystem) : fs.resolve [] = .error .missing := rfl

def cross (fs : FileSystem) (p : Place) (target : Text) : Except Cause Place :=
  match p.links with
  | 0 => .error .tooManyLinks
  | links + 1 => fs.follow links (p.location.origin (Path.names target)) (Path.names target)

def enter (fs : FileSystem) (p : Place) (name : Text) : Except Cause Place :=
  match fs.lookup? (name :: p.location) with
  | none => .error .missing
  | some (.link target) => fs.cross p target
  | some _ => .ok ⟨name :: p.location, p.links⟩

theorem cross_links_lt {fs : FileSystem} {p q : Place} {target : Text}
    (h : fs.cross p target = .ok q) : q.links < p.links := by
  obtain ⟨location, links⟩ := p
  cases links with
  | zero => simp [cross] at h
  | succ n => exact Nat.lt_succ_of_le (follow_links_le h)

def rank (fs : FileSystem) (p : Place) : Nat :=
  p.links * (fs.depth + 1) + (fs.depth - p.location.length)

theorem rank_lt_of_links_lt {fs : FileSystem} {p q : Place} (h : q.links < p.links) :
    fs.rank q < fs.rank p := by
  have hm := Nat.mul_le_mul_right (fs.depth + 1) (Nat.succ_le_of_lt h)
  rw [Nat.succ_mul] at hm
  rw [rank, rank]
  omega

theorem rank_lt_of_lookup? {fs : FileSystem} {p : Place} {name : Text} {entry : Entry}
    (h : fs.lookup? (name :: p.location) = some entry) :
    fs.rank ⟨name :: p.location, p.links⟩ < fs.rank p := by
  have hd := length_le_depth h
  simp only [rank, List.length_cons]
  omega

theorem rank_enter_lt {fs : FileSystem} {p q : Place} {name : Text} (h : fs.enter p name = .ok q) :
    fs.rank q < fs.rank p := by
  rw [enter] at h
  split at h
  · simp at h
  · exact rank_lt_of_links_lt (cross_links_lt h)
  · next he =>
    rw [← Except.ok.inj h]
    exact rank_lt_of_lookup? he

def probe (fs : FileSystem) (path : AbsolutePath) : Except PathFault (Option Entry) :=
  if isTooLong pathLimit path.text then .error ⟨.nameTooLong, path.text⟩
  else
    match fs.follow linkLimit [] path.location.reverse with
    | .ok p => .ok (fs.lookup? p.location)
    | .error .nameTooLong => .error ⟨.nameTooLong, path.text⟩
    | .error _ => .ok none

def readFile (fs : FileSystem) (path : Text) : Except PathFault (List UInt8) :=
  match fs.resolve path with
  | .error cause => .error ⟨cause, path⟩
  | .ok p =>
    match fs.content? p.location with
    | some content => .ok content
    | none => .error ⟨.isDirectory, path⟩

end ColorCensus.FileSystem
