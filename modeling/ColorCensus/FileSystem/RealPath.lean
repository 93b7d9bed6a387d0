import ColorCensus.FileSystem.Resolve

namespace ColorCensus.FileSystem

open Text

inductive RealPath where
  | found (location : Location)
  | circular (path : AbsolutePath)
  | refused (cause : Cause)
  deriving DecidableEq, Repr

def isDoubled : List Text → Bool
  | [] :: [] :: [] :: _ :: _ => false
  | [] :: [] :: _ :: _ => true
  | _ => false

def resume (path : AbsolutePath) (rest : List Text) : AbsolutePath :=
  if Path.isAbsolute rest then ⟨isDoubled rest, Location.descend [] rest⟩
  else ⟨path.doubled, path.location.descend rest⟩

def linksBesides (fs : FileSystem) (active : List Location) : Nat :=
  fs.entries.countP fun e => e.2.isLink && !active.contains e.1

theorem countP_lt_countP {p q : α → Bool} {xs : List α} {x : α} (hpq : ∀ y, p y → q y)
    (hx : x ∈ xs) (hq : q x) (hp : ¬ p x) : xs.countP p < xs.countP q := by
  induction xs with
  | nil => simp at hx
  | cons y xs ih =>
    rw [List.countP_cons, List.countP_cons]
    rcases List.mem_cons.mp hx with h | h
    · have hle : xs.countP p ≤ xs.countP q := List.countP_mono_left fun z _ => hpq z
      rw [← h, if_pos hq, if_neg hp]
      omega
    · have hlt := ih h
      split
      · next hy => rw [if_pos (hpq y hy)]; omega
      · omega

theorem linksBesides_cons_lt {fs : FileSystem} {active : List Location} {location : Location}
    {target : Text} (h : (location, Entry.link target) ∈ fs.entries)
    (ha : ¬ active.contains location) :
    fs.linksBesides (location :: active) < fs.linksBesides active := by
  refine countP_lt_countP (fun e he => ?_) h ?_ ?_
  · simp only [Bool.and_eq_true, Bool.not_eq_true', List.contains_cons, Bool.or_eq_false_iff] at he
    simp only [Bool.and_eq_true, Bool.not_eq_true']
    exact ⟨he.1, he.2.2⟩
  · simpa [Entry.isLink] using ha
  · simp

def targetLength : Entry → Nat
  | .link target => (Path.names target).length
  | _ => 0

def targetLimit (fs : FileSystem) : Nat := (fs.entries.map fun e => targetLength e.2).foldr max 0

theorem length_le_targetLimit {fs : FileSystem} {location : Location} {target : Text}
    (h : (location, Entry.link target) ∈ fs.entries) :
    (Path.names target).length ≤ fs.targetLimit :=
  le_foldr_max (List.mem_map_of_mem (f := fun e => targetLength e.2) h)

def linkRank (fs : FileSystem) (active : List Location) (names : List Text) : Nat :=
  fs.linksBesides active * (fs.targetLimit + 1) + names.length

theorem linkRank_lt_of_cons (fs : FileSystem) (active : List Location) (name : Text) (rest : List Text) :
    fs.linkRank active rest < fs.linkRank active (name :: rest) :=
  Nat.add_lt_add_left (Nat.lt_succ_self _) _

theorem linkRank_lt_of_link {fs : FileSystem} {active : List Location} {location : Location}
    {target : Text} (h : (location, Entry.link target) ∈ fs.entries)
    (ha : ¬ active.contains location) (names : List Text) :
    fs.linkRank (location :: active) (Path.names target) < fs.linkRank active names := by
  have hl := linksBesides_cons_lt h ha
  have ht := length_le_targetLimit h
  have hm := Nat.mul_le_mul_right (fs.targetLimit + 1) (Nat.succ_le_of_lt hl)
  rw [Nat.succ_mul] at hm
  rw [linkRank, linkRank]
  omega

abbrev Known := List (Location × Location)

def realPathFrom (fs : FileSystem) (active : List Location) (known : Known) (location : Location) :
    List Text → RealPath × Known
  | [] => (.found location, known)
  | name :: rest =>
    if name = [] ∨ name = Path.here ∨ name = Path.above then
      fs.realPathFrom active known (location.step name) rest
    else
      match refusal? (Location.text (name :: location)) with
      | some cause => (.refused cause, known)
      | none =>
        match _he : fs.lookup? (name :: location) with
        | some (.link target) =>
          match known.lookup (name :: location) with
          | some l => fs.realPathFrom active known l rest
          | none =>
            if _ha : active.contains (name :: location) then
              (.circular (resume (.ofLocation (name :: location)) rest), known)
            else
              match fs.realPathFrom ((name :: location) :: active) known
                  (location.origin (Path.names target)) (Path.names target) with
              | (.refused cause, known) => (.refused cause, known)
              | (.circular p, known) => (.circular (resume p rest), known)
              | (.found l, known) =>
                fs.realPathFrom active ((name :: location, l) :: known) l rest
        | _ => fs.realPathFrom active known (name :: location) rest
termination_by names => fs.linkRank active names
decreasing_by
  · exact linkRank_lt_of_cons fs active name rest
  · exact linkRank_lt_of_cons fs active name rest
  · exact linkRank_lt_of_link (mem_entries_of_lookup? _he) _ha _
  · exact linkRank_lt_of_cons fs active name rest
  · exact linkRank_lt_of_cons fs active name rest

inductive RealPathFault where
  | circular (path : AbsolutePath)
  | refused (cause : Cause)
  deriving DecidableEq, Repr

def RealPathFault.message : RealPathFault → Text
  | circular path => "Symlink loop from " ++ quoted path.text
  | refused cause => cause.text

def realPathAlong (fs : FileSystem) (names : List Text) : Except RealPathFault AbsolutePath :=
  match (fs.realPathFrom [] [] [] names).1 with
  | .found l => .ok (.ofLocation l)
  | .refused cause => .error (.refused cause)
  | .circular path =>
    match refusal? path.text with
    | some cause => .error (.refused cause)
    | none =>
      match fs.follow linkLimit [] path.location.reverse with
      | .error .tooManyLinks => .error (.circular path)
      | _ => .ok path

def namesBelow (location : Location) (path : Text) : List Text :=
  let names := Path.names (Path.normal path)
  if Path.isAbsolute names then names else location.reverse ++ names

def realPath (fs : FileSystem) (location : Location) (path : Text) :
    Except RealPathFault AbsolutePath :=
  fs.realPathAlong (namesBelow location path)

end ColorCensus.FileSystem
