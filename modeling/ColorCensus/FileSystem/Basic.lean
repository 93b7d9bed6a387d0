import ColorCensus.FileSystem.Path

namespace ColorCensus

abbrev Location := List Text

namespace Location

def text (location : Location) : Text := '/' :: Text.join ['/'] location.reverse

def name (location : Location) : Text := location.head?.getD []

def step (location : Location) (name : Text) : Location :=
  if name = [] ∨ name = Path.here then location
  else if name = Path.above then location.tail
  else name :: location

def descend (location : Location) (names : List Text) : Location := names.foldl step location

theorem descend_append (location : Location) (xs ys : List Text) :
    location.descend (xs ++ ys) = (location.descend xs).descend ys := List.foldl_append ..

def lineage : Location → List Location
  | [] => [[]]
  | name :: parent => (name :: parent) :: lineage parent

def origin (location : Location) (names : List Text) : Location :=
  if Path.isAbsolute names then [] else location

def within (base location : Location) : Bool := base.isSuffixOf location

theorem within_iff {base location : Location} :
    within base location = true ↔ ∃ names, location = names ++ base := by
  simp only [within, List.isSuffixOf_iff_suffix]
  exact ⟨fun ⟨r, h⟩ => ⟨r, h.symm⟩, fun ⟨r, h⟩ => ⟨r, h.symm⟩⟩

end Location

structure AbsolutePath where
  doubled : Bool
  location : Location
  deriving DecidableEq, Repr

namespace AbsolutePath

def ofLocation (location : Location) : AbsolutePath := ⟨false, location⟩

def text (path : AbsolutePath) : Text :=
  if path.doubled then '/' :: path.location.text else path.location.text

def name (path : AbsolutePath) : Text := path.location.name

def within (base path : AbsolutePath) : Bool :=
  base.doubled == path.doubled && base.location.within path.location

theorem within_ofLocation (base location : Location) :
    (ofLocation base).within (ofLocation location) = base.within location := rfl

end AbsolutePath

inductive Entry where
  | directory
  | file (content : List UInt8) (modified : Int)
  | link (target : Text)
  deriving DecidableEq

def Entry.isLink : Entry → Bool
  | link _ => true
  | _ => false

def entryIn (entries : List (Location × Entry)) : Location → Option Entry
  | [] => some .directory
  | name :: parent => entries.lookup (name :: parent)

def IsRooted (entries : List (Location × Entry)) : Prop :=
  ∀ name parent, (entryIn entries (name :: parent)).isSome →
    entryIn entries parent = some .directory

structure FileSystem where
  entries : List (Location × Entry)
  current : Location
  distinct : (entries.map Prod.fst).Nodup
  rooted : IsRooted entries

namespace FileSystem

def empty (current : Location) : FileSystem where
  entries := []
  current := current
  distinct := List.nodup_nil
  rooted := fun _ _ h => by simp [entryIn] at h

def lookup? (fs : FileSystem) (location : Location) : Option Entry := entryIn fs.entries location

def isDirectory (fs : FileSystem) (location : Location) : Bool :=
  fs.lookup? location == some .directory

def content? (fs : FileSystem) (location : Location) : Option (List UInt8) :=
  match fs.lookup? location with
  | some (.file content _) => some content
  | _ => none

def list (fs : FileSystem) (location : Location) : List Text :=
  fs.entries.filterMap fun e =>
    match e.1 with
    | name :: parent => if parent = location then some name else none
    | [] => none

theorem mem_of_lookup {entries : List (Location × Entry)} {location : Location} {entry : Entry}
    (h : entries.lookup location = some entry) : (location, entry) ∈ entries := by
  induction entries with
  | nil => simp at h
  | cons e entries ih =>
    obtain ⟨l, x⟩ := e
    by_cases hl : location = l
    · rw [hl, List.lookup_cons_self, Option.some.injEq] at h
      simp [hl, h]
    · rw [List.lookup_cons, beq_eq_false_iff_ne.mpr hl] at h
      exact List.mem_cons_of_mem _ (ih h)

theorem mem_entries_of_lookup? {fs : FileSystem} {name : Text} {parent : Location} {entry : Entry}
    (h : fs.lookup? (name :: parent) = some entry) : (name :: parent, entry) ∈ fs.entries :=
  mem_of_lookup h

theorem isDirectory_iff {fs : FileSystem} {location : Location} :
    fs.isDirectory location = true ↔ fs.lookup? location = some .directory := by
  simp [isDirectory]

theorem isDirectory_parent {fs : FileSystem} {name : Text} {parent : Location} {entry : Entry}
    (h : fs.lookup? (name :: parent) = some entry) : fs.isDirectory parent = true := by
  have hs : (entryIn fs.entries (name :: parent)).isSome = true := Option.isSome_iff_exists.mpr ⟨entry, h⟩
  exact isDirectory_iff.mpr (fs.rooted name parent hs)

def depth (fs : FileSystem) : Nat := (fs.entries.map fun e => e.1.length).foldr max 0

theorem le_foldr_max {ns : List Nat} {n : Nat} (h : n ∈ ns) : n ≤ ns.foldr max 0 := by
  induction ns with
  | nil => simp at h
  | cons m ns ih =>
    rw [List.foldr_cons]
    rcases List.mem_cons.mp h with h | h
    · omega
    · have := ih h
      omega

theorem length_le_depth {fs : FileSystem} {name : Text} {parent : Location} {entry : Entry}
    (h : fs.lookup? (name :: parent) = some entry) : parent.length + 1 ≤ fs.depth :=
  le_foldr_max (List.mem_map_of_mem (mem_entries_of_lookup? h))

end FileSystem

end ColorCensus
