import ColorCensus.Proofs.FileSystem.Descent
import ColorCensus.Proofs.FileSystem.Path

namespace ColorCensus.FileSystem

open Text CodePoint

variable {fs : FileSystem} {location : Location} {names : List Text} {p q : Place} {path name : Text}

def Halt.onward (fs : FileSystem) (names : List Text) : Halt → Except Cause Halt
  | arrived location => fs.advance location names
  | link directory target rest => .ok (.link directory target (rest ++ names))

theorem advance_append (fs : FileSystem) (location : Location) (xs ys : List Text) :
    fs.advance location (xs ++ ys) = (fs.advance location xs).bind (Halt.onward fs ys) := by
  induction xs generalizing location with
  | nil => rfl
  | cons x xs ih =>
    rw [List.cons_append, advance, advance]
    split
    · split
      · exact ih _
      · split
        · rfl
        · split
          · rfl
          · rfl
          · exact ih _
    · rfl

theorem follow_append (fs : FileSystem) (links : ℕ) (location : Location) (xs ys : List Text) :
    fs.follow links location (xs ++ ys) =
      (fs.follow links location xs).bind fun p => fs.follow p.links p.location ys := by
  induction links generalizing location xs with
  | zero =>
    rw [follow, follow, advance_append]
    cases fs.advance location xs with
    | error cause => rfl
    | ok halt => cases halt <;> rfl
  | succ links ih =>
    rw [follow, follow, advance_append]
    cases fs.advance location xs with
    | error cause => rfl
    | ok halt =>
      cases halt with
      | arrived l => rfl
      | link directory target rest =>
        change fs.follow links _ (Path.names target ++ (rest ++ ys)) = _
        rw [← List.append_assoc, ih]
        rfl

theorem advance_name (hd : fs.isDirectory location = true) (hn : IsFileName name) :
    fs.advance location [name] = match fs.lookup? (name :: location) with
      | none => .error .missing
      | some (.link target) => .ok (.link location target [])
      | some _ => .ok (.arrived (name :: location)) := by
  have hs : ¬ (name = [] ∨ name = Path.here ∨ name = Path.above) := hn.ordinary
  rw [advance, if_pos hd, if_neg hs, if_neg (by simp [hn.short])]
  rfl

theorem follow_name (hd : fs.isDirectory p.location = true) (hn : IsFileName name) :
    fs.follow p.links p.location [name] = fs.enter p name := by
  obtain ⟨location, links⟩ := p
  have hadvance := advance_name hd hn
  unfold enter
  cases hl : fs.lookup? (name :: location) with
  | none => cases links <;> (rw [follow, hadvance, hl]; rfl)
  | some entry =>
    cases entry with
    | link target =>
      cases links with
      | zero => rw [follow, hadvance, hl]; rfl
      | succ links =>
        rw [follow, hadvance, hl]
        change fs.follow links _ (Path.names target ++ []) = _
        rw [List.append_nil]
        rfl
    | directory => cases links <;> (rw [follow, hadvance, hl]; rfl)
    | file content modified => cases links <;> (rw [follow, hadvance, hl]; rfl)

theorem eq_of_follow_slash (h : fs.follow p.links p.location [[]] = .ok q) : q = p := by
  obtain ⟨location, links⟩ := p
  have hadvance : fs.advance location [[]] =
      if fs.isDirectory location = true then .ok (.arrived location) else .error .notDirectory := rfl
  split at hadvance
  · cases links <;> (rw [follow, hadvance] at h; exact (Except.ok.inj h).symm)
  · cases links <;> (rw [follow, hadvance] at h; cases h)

theorem namesOf_eq_ok (h : namesOf path = .ok names) :
    IsPassable path ∧ path ≠ [] ∧ names = Path.names path := by
  unfold namesOf at h
  split at h
  · cases h
  · next hz =>
    split at h
    · cases h
    · split at h
      · cases h
      · next h0 => exact ⟨refusal?_eq_none_iff.mp hz, h0, (Except.ok.inj h).symm⟩

theorem isPassable_child_iff (h : IsFileName name) : IsPassable (Path.child path name) ↔ IsPassable path := by
  have hslash : IsPassable [char '/'] := by decide
  obtain ⟨r, hr, hpath⟩ := Path.exists_child_eq path name
  rw [hr, ← List.singleton_append, ← List.append_assoc, isPassable_append_iff, isPassable_append_iff]
  rcases hpath with rfl | rfl
  · simp [hslash, h.passable]
  · simp [isPassable_append_iff, hslash, h.passable]

theorem resolve_child (h : fs.resolve path = .ok p) (hd : fs.isDirectory p.location = true)
    (hn : IsFileName name) : fs.resolve (Path.child path name) =
      if isTooLong pathLimit (Path.child path name) then .error .nameTooLong else fs.enter p name := by
  obtain ⟨names, hnames, hf⟩ := bind_eq_ok.mp h
  obtain ⟨hz, h0, rfl⟩ := namesOf_eq_ok hnames
  obtain ⟨r, hr, hpath⟩ := Path.exists_child_eq path name
  have hchild : Path.names (Path.child path name) = Path.names r ++ [name] := by
    rw [hr, Path.names, split_append_cons, split_eq_singleton hn.unbroken]
    rfl
  have hfollow : fs.follow linkLimit (fs.current.origin (Path.names r ++ [name])) (Path.names r) = .ok p := by
    rcases hpath with rfl | rfl
    · rwa [Location.origin, Path.isAbsolute_names_concat h0]
    · have hsplit : Path.names (r ++ [char '/']) = Path.names r ++ [[]] := split_append_cons r []
      rw [hsplit, follow_append, Location.origin, Path.isAbsolute_concat (Path.names_ne_nil r) [] name] at hf
      obtain ⟨q, hq, hp⟩ := bind_eq_ok.mp hf
      rw [eq_of_follow_slash hp]
      exact hq
  have hpassable := refusal?_eq_none_iff.mpr ((isPassable_child_iff hn).mpr hz)
  rw [resolve, namesOf, hpassable]
  dsimp only
  split
  · rfl
  · rw [if_neg (Path.child_ne_nil path name), hchild]
    change fs.follow linkLimit _ (Path.names r ++ [name]) = _
    rw [follow_append, hfollow]
    exact follow_name hd hn

end ColorCensus.FileSystem
