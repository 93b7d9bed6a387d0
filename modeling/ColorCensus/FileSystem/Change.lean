import ColorCensus.FileSystem.Basic

namespace ColorCensus.FileSystem

def put (location : Location) (entry : Entry) : List (Location × Entry) → List (Location × Entry)
  | [] => [(location, entry)]
  | (l, e) :: entries =>
    if l = location then (l, entry) :: entries else (l, e) :: put location entry entries

theorem map_fst_put (location : Location) (entry : Entry) (entries : List (Location × Entry)) :
    (put location entry entries).map Prod.fst =
      if location ∈ entries.map Prod.fst then entries.map Prod.fst
      else entries.map Prod.fst ++ [location] := by
  induction entries with
  | nil => simp [put]
  | cons e entries ih =>
    obtain ⟨l, x⟩ := e
    by_cases hl : l = location
    · simp [put, hl]
    · rw [put, if_neg hl, List.map_cons, ih, List.map_cons]
      by_cases hm : location ∈ entries.map Prod.fst
      · rw [if_pos hm, if_pos (List.mem_cons_of_mem _ hm)]
      · rw [if_neg hm, if_neg (by simpa [Ne.symm hl] using hm), List.cons_append]

theorem lookup_put (location l : Location) (entry : Entry) (entries : List (Location × Entry)) :
    (put location entry entries).lookup l =
      if l = location then some entry else entries.lookup l := by
  induction entries with
  | nil =>
    by_cases h : l = location
    · simp [put, h]
    · simp [put, h, List.lookup_cons, beq_eq_false_iff_ne.mpr h]
  | cons e entries ih =>
    obtain ⟨k, x⟩ := e
    by_cases hk : k = location
    · by_cases hl : l = location
      · simp [put, hk, hl]
      · simp [put, hk, hl, List.lookup_cons, beq_eq_false_iff_ne.mpr hl]
    · by_cases hl : l = k
      · simp [put, hk, hl]
      · simp [put, hk, List.lookup_cons, beq_eq_false_iff_ne.mpr hl, ih]

def canHold (fs : FileSystem) (name : Text) (parent : Location) (entry : Entry) : Bool :=
  fs.isDirectory parent && (!fs.isDirectory (name :: parent) || entry == .directory)

theorem isRooted_put {fs : FileSystem} {name : Text} {parent : Location} {entry : Entry}
    (h : fs.canHold name parent entry = true) : IsRooted (put (name :: parent) entry fs.entries) := by
  rw [canHold, Bool.and_eq_true, isDirectory_iff] at h
  have hput : ∀ l, entryIn fs.entries l = some .directory →
      entryIn (put (name :: parent) entry fs.entries) l = some .directory := by
    intro l hl
    cases l with
    | nil => rfl
    | cons n p =>
      rw [entryIn, lookup_put]
      split
      · next he =>
        have hd : fs.isDirectory (name :: parent) = true := isDirectory_iff.mpr (he ▸ hl)
        simpa [hd] using h.2
      · exact hl
  intro n p hs
  apply hput
  by_cases he : n :: p = name :: parent
  · rw [(List.cons.inj he).2]
    exact h.1
  · rw [entryIn, lookup_put, if_neg he] at hs
    exact fs.rooted n p hs

theorem nodup_put {entries : List (Location × Entry)} (h : (entries.map Prod.fst).Nodup)
    (location : Location) (entry : Entry) : ((put location entry entries).map Prod.fst).Nodup := by
  rw [map_fst_put]
  split
  · exact h
  · next hm =>
    rw [List.nodup_append]
    exact ⟨h, by simp, fun l hl m hm' => by
      rw [List.mem_singleton] at hm'
      exact fun he => hm (hm' ▸ he ▸ hl)⟩

def insert (fs : FileSystem) (location : Location) (entry : Entry) : FileSystem :=
  match location with
  | [] => fs
  | name :: parent =>
    if h : fs.canHold name parent entry then
      { entries := put (name :: parent) entry fs.entries
        current := fs.current
        distinct := nodup_put fs.distinct _ _
        rooted := isRooted_put h }
    else fs

theorem lookup?_insert {fs : FileSystem} {name : Text} {parent : Location} {entry : Entry}
    (h : fs.canHold name parent entry = true) (l : Location) :
    (fs.insert (name :: parent) entry).lookup? l =
      if l = name :: parent then some entry else fs.lookup? l := by
  rw [insert, dif_pos h]
  cases l with
  | nil => simp [lookup?, entryIn]
  | cons n p => exact lookup_put (name :: parent) (n :: p) entry fs.entries

def ensure (fs : FileSystem) : Location → FileSystem
  | [] => fs
  | name :: parent =>
    let above := fs.ensure parent
    match above.lookup? (name :: parent) with
    | some _ => above
    | none => above.insert (name :: parent) .directory

def write (fs : FileSystem) (location : Location) (entry : Entry) : FileSystem :=
  (fs.ensure location.tail).insert location entry

theorem lookup_filter_within (location l : Location) (entries : List (Location × Entry)) :
    (entries.filter fun e => !location.within e.1).lookup l =
      if location.within l then none else entries.lookup l := by
  induction entries with
  | nil => simp
  | cons e entries ih =>
    obtain ⟨k, x⟩ := e
    by_cases hk : location.within k = true
    · rw [List.filter_cons_of_neg (by simp [hk]), ih, List.lookup_cons]
      by_cases hl : location.within l = true
      · rw [if_pos hl, if_pos hl]
      · have hne : l ≠ k := fun he => hl (he ▸ hk)
        rw [if_neg hl, if_neg hl, beq_eq_false_iff_ne.mpr hne]
    · rw [List.filter_cons_of_pos (by simp [hk]), List.lookup_cons, List.lookup_cons, ih]
      by_cases he : l = k
      · rw [he, beq_self_eq_true, if_neg hk, if_neg hk]
      · rw [beq_eq_false_iff_ne.mpr he]

theorem isRooted_filter_within (fs : FileSystem) (location : Location) :
    IsRooted (fs.entries.filter fun e => !location.within e.1) := by
  intro name parent hs
  rw [entryIn, lookup_filter_within] at hs
  split at hs
  · simp at hs
  · next hw =>
    have hp := fs.rooted name parent hs
    cases parent with
    | nil => rfl
    | cons n p =>
      have hwp : ¬ location.within (n :: p) = true := by
        intro h
        obtain ⟨names, hn⟩ := Location.within_iff.mp h
        exact hw (Location.within_iff.mpr ⟨name :: names, by rw [hn, List.cons_append]⟩)
      rw [entryIn, lookup_filter_within, if_neg hwp]
      exact hp

def erase (fs : FileSystem) (location : Location) : FileSystem where
  entries := fs.entries.filter fun e => !location.within e.1
  current := fs.current
  distinct := fs.distinct.sublist (List.filter_sublist.map _)
  rooted := isRooted_filter_within fs location

end ColorCensus.FileSystem
