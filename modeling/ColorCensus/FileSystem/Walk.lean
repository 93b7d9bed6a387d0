import ColorCensus.FileSystem.Resolve

namespace ColorCensus

open Text

def stylesheetEnding : Text := ".css"

def isStylesheet (ending name : Text) : Bool := endsWith ending name

namespace FileSystem

structure Folder where
  place : Place
  path : Text
  deriving DecidableEq, Repr

structure Found where
  path : Text
  content : List UInt8
  deriving DecidableEq, Repr

structure Listing where
  files : List Found
  folders : List Folder
  deriving DecidableEq, Repr

def Listing.empty : Listing := ⟨[], []⟩

def Listing.append (x y : Listing) : Listing := ⟨x.files ++ y.files, x.folders ++ y.folders⟩

def inspect (fs : FileSystem) (ending : Text) (folder : Folder) (name : Text) :
    Except PathFault Listing :=
  let path := Path.child folder.path name
  if isTooLong pathLimit path then .error ⟨.nameTooLong, path⟩
  else
    match fs.enter folder.place name with
    | .error cause => .error ⟨cause, path⟩
    | .ok p =>
      match fs.content? p.location with
      | some content =>
        .ok (if isStylesheet ending name then ⟨[⟨Path.normal path, content⟩], []⟩ else .empty)
      | none => .ok ⟨[], [⟨p, path⟩]⟩

def inspectAll (fs : FileSystem) (ending : Text) (folder : Folder) :
    List Text → Except PathFault Listing
  | [] => .ok .empty
  | name :: names => do
    let first ← fs.inspect ending folder name
    let rest ← fs.inspectAll ending folder names
    return first.append rest

def contents (fs : FileSystem) (ending : Text) (folder : Folder) : Except PathFault Listing :=
  fs.inspectAll ending folder (fs.list folder.place.location)

theorem rank_inspect_lt {fs : FileSystem} {ending : Text} {folder : Folder} {name : Text}
    {listing : Listing} (h : fs.inspect ending folder name = .ok listing) {below : Folder}
    (hb : below ∈ listing.folders) : fs.rank below.place < fs.rank folder.place := by
  rw [inspect] at h
  split at h
  · simp at h
  · split at h
    · simp at h
    · next p hp =>
      split at h
      · rw [← Except.ok.inj h] at hb
        split at hb <;> simp [Listing.empty] at hb
      · rw [← Except.ok.inj h, List.mem_singleton] at hb
        rw [hb]
        exact rank_enter_lt hp

theorem rank_inspectAll_lt {fs : FileSystem} {ending : Text} {folder : Folder} {names : List Text}
    {listing : Listing} (h : fs.inspectAll ending folder names = .ok listing) {below : Folder}
    (hb : below ∈ listing.folders) : fs.rank below.place < fs.rank folder.place := by
  induction names generalizing listing with
  | nil =>
    rw [← Except.ok.inj h] at hb
    simp [Listing.empty] at hb
  | cons name names ih =>
    rw [inspectAll] at h
    cases hf : fs.inspect ending folder name with
    | error f => simp [hf, bind, Except.bind] at h
    | ok first =>
      cases hr : fs.inspectAll ending folder names with
      | error f => simp [hf, hr, bind, Except.bind] at h
      | ok rest =>
        simp only [hf, hr, bind, Except.bind, pure, Except.pure, Except.ok.injEq] at h
        rw [← h, Listing.append, List.mem_append] at hb
        rcases hb with hb | hb
        · exact rank_inspect_lt hf hb
        · exact ih hr hb

def walk (fs : FileSystem) (ending : Text) (folder : Folder) : Except PathFault (List Found) :=
  match _h : fs.contents ending folder with
  | .error f => .error f
  | .ok listing =>
    (listing.folders.reverse.attach.mapM fun below => fs.walk ending below.1).map fun found =>
      listing.files ++ found.flatten
termination_by fs.rank folder.place
decreasing_by exact rank_inspectAll_lt _h (List.mem_reverse.mp below.2)

def find (fs : FileSystem) (ending : Text) (path : Text) : Except PathFault (List Found) :=
  match fs.resolve path with
  | .error cause => .error ⟨cause, path⟩
  | .ok p =>
    if fs.isDirectory p.location then fs.walk ending ⟨p, path⟩ else .error ⟨.notDirectory, path⟩

end FileSystem

end ColorCensus
