import ColorCensus.FileSystem.Walk
import ColorCensus.Proofs.Outcome
import Mathlib.Data.List.Nodup

namespace ColorCensus.FileSystem

open Text

variable {fs : FileSystem} {p q r : Place} {location : Location} {name : Text} {names : List Text}

def childName (location : Location) : Location → Option Text
  | name :: parent => if parent = location then some name else none
  | [] => none

theorem childName_eq_some {l : Location} : childName location l = some name ↔ l = name :: location := by
  cases l with
  | nil => simp [childName]
  | cons n parent =>
    rw [childName, Option.ite_none_right_eq_some, List.cons.injEq, Option.some.injEq]
    exact And.comm

theorem list_eq : fs.list location = (fs.entries.map Prod.fst).filterMap (childName location) := by
  rw [list, List.filterMap_map]
  apply List.filterMap_congr
  rintro ⟨l, x⟩ -
  cases l <;> rfl

theorem list_nodup : (fs.list location).Nodup := by
  rw [list_eq]
  apply fs.distinct.filterMap
  intro l m n hl hm
  rw [childName_eq_some.mp hl, childName_eq_some.mp hm]

theorem mem_list_iff : name ∈ fs.list location ↔ ∃ entry, fs.lookup? (name :: location) = some entry := by
  rw [list_eq, List.mem_filterMap, ← Option.isSome_iff_exists, lookup?, entryIn, List.lookup_isSome_iff]
  constructor
  · rintro ⟨l, hl, hn⟩
    obtain ⟨e, he, rfl⟩ := List.mem_map.mp hl
    exact ⟨e, he, beq_iff_eq.mpr (childName_eq_some.mp hn).symm⟩
  · rintro ⟨e, he, hl⟩
    exact ⟨e.1, List.mem_map_of_mem he, childName_eq_some.mpr (beq_iff_eq.mp hl).symm⟩

def IsStanding (fs : FileSystem) (location : Location) : Prop :=
  fs.isDirectory location = true ∨ (fs.content? location).isSome = true

theorem isStanding_of_lookup? {entry : Entry} (h : fs.lookup? location = some entry)
    (hl : ∀ target, entry ≠ .link target) : fs.IsStanding location := by
  cases entry with
  | directory => exact .inl (isDirectory_iff.mpr h)
  | file content modified => exact .inr (by rw [content?, h]; rfl)
  | link target => exact absurd rfl (hl target)

theorem content?_eq_none_of_isDirectory (h : fs.isDirectory location = true) :
    fs.content? location = none := by
  rw [content?, isDirectory_iff.mp h]

theorem not_isDirectory_of_content? {content : List UInt8} (h : fs.content? location = some content) :
    ¬fs.isDirectory location = true := by
  intro hd
  rw [content?_eq_none_of_isDirectory hd] at h
  cases h

theorem isDirectory_tail (h : fs.isDirectory location = true) : fs.isDirectory location.tail = true := by
  cases location with
  | nil => exact h
  | cons name parent => exact isDirectory_parent (isDirectory_iff.mp h)

theorem isDirectory_step (h : fs.isDirectory location = true)
    (hn : name = [] ∨ name = Path.here ∨ name = Path.above) :
    fs.isDirectory (location.step name) = true := by
  unfold Location.step
  split
  · exact h
  · split
    · exact isDirectory_tail h
    · next h1 h2 => rcases hn with hn | hn | hn <;> simp [hn] at h1 h2

theorem isDirectory_origin (h : fs.isDirectory location = true) :
    fs.isDirectory (location.origin names) = true := by
  unfold Location.origin
  split
  · exact isDirectory_iff.mpr rfl
  · exact h

theorem isStanding_arrived {l : Location} (h : fs.advance location names = .ok (.arrived l))
    (hs : fs.IsStanding location) : fs.IsStanding l := by
  induction names generalizing location with
  | nil =>
    cases h
    exact hs
  | cons name rest ih =>
    rw [advance] at h
    split at h
    · next hd =>
      split at h
      · next hn => exact ih h (.inl (isDirectory_step hd hn))
      · split at h
        · cases h
        · split at h
          · cases h
          · cases h
          · next entry hne he => exact ih h (isStanding_of_lookup? he hne)
    · cases h

theorem isDirectory_of_link {directory : Location} {target : Text} {rest : List Text}
    (h : fs.advance location names = .ok (.link directory target rest)) :
    fs.isDirectory directory = true := by
  induction names generalizing location with
  | nil => cases h
  | cons name names ih =>
    rw [advance] at h
    split at h
    · next hd =>
      split at h
      · exact ih h
      · split at h
        · cases h
        · split at h
          · cases h
          · cases h
            exact hd
          · exact ih h
    · cases h

theorem isStanding_follow {links : ℕ} (h : fs.follow links location names = .ok p)
    (hs : fs.IsStanding location) : fs.IsStanding p.location := by
  induction links generalizing location names with
  | zero =>
    rw [follow] at h
    cases ha : fs.advance location names with
    | error cause => rw [ha] at h; cases h
    | ok halt =>
      rw [ha] at h
      cases halt with
      | arrived l =>
        cases h
        exact isStanding_arrived ha hs
      | link directory target rest => cases h
  | succ links ih =>
    rw [follow] at h
    cases ha : fs.advance location names with
    | error cause => rw [ha] at h; cases h
    | ok halt =>
      rw [ha] at h
      cases halt with
      | arrived l =>
        cases h
        exact isStanding_arrived ha hs
      | link directory target rest => exact ih h (.inl (isDirectory_origin (isDirectory_of_link ha)))

theorem isStanding_enter (h : fs.enter p name = .ok q) : fs.IsStanding q.location := by
  unfold enter at h
  split at h
  · cases h
  · next target ht =>
    unfold cross at h
    split at h
    · cases h
    · exact isStanding_follow h (.inl (isDirectory_origin (isDirectory_parent ht)))
  · next entry hne he =>
    cases h
    exact isStanding_of_lookup? he hne

inductive Descends (fs : FileSystem) : Place → List Text → Place → Prop where
  | here (p : Place) : Descends fs p [] p
  | down {p q r : Place} {name : Text} {trail : List Text} (hm : name ∈ fs.list p.location)
    (he : fs.enter p name = .ok q) (h : Descends fs q trail r) : Descends fs p (name :: trail) r

structure IsEntry (fs : FileSystem) (ending : Text) (p : Place) (trail : List Text) : Prop where
  named : ∃ name, trail.getLast? = some name ∧ isStylesheet ending name = true
  reached : ∃ q, Descends fs p trail q ∧ fs.isDirectory q.location = false

structure IsSheet (fs : FileSystem) (ending : Text) (p : Place) (trail : List Text)
    (content : List UInt8) : Prop where
  named : ∃ name, trail.getLast? = some name ∧ isStylesheet ending name = true
  reached : ∃ q, Descends fs p trail q ∧ fs.isDirectory q.location = false ∧
    fs.content? q.location = some content

variable {ending : Text} {trail : List Text} {content : List UInt8}

theorem Descends.isDirectory (h : Descends fs p (name :: trail) q) : fs.isDirectory p.location = true := by
  cases h with
  | down hm =>
    obtain ⟨entry, he⟩ := mem_list_iff.mp hm
    exact isDirectory_parent he

theorem Descends.isStanding (h : Descends fs p (name :: trail) q) : fs.IsStanding q.location := by
  induction trail generalizing p name with
  | nil =>
    cases h with
    | down hm he h =>
      cases h
      exact isStanding_enter he
  | cons n trail ih =>
    cases h with
    | down hm he h => exact ih h

theorem isEntry_iff_exists_isSheet :
    IsEntry fs ending p trail ↔ ∃ content, IsSheet fs ending p trail content := by
  constructor
  · rintro ⟨⟨name, hn, hs⟩, q, hd, hq⟩
    cases trail with
    | nil => cases hn
    | cons n trail =>
      rcases hd.isStanding with hdir | hc
      · rw [hdir] at hq
        cases hq
      · obtain ⟨content, hc⟩ := Option.isSome_iff_exists.mp hc
        exact ⟨content, ⟨name, hn, hs⟩, q, hd, hq, hc⟩
  · rintro ⟨content, hn, q, hd, hq, -⟩
    exact ⟨hn, q, hd, hq⟩

theorem not_isSheet_nil : ¬ IsSheet fs ending p [] content := by
  rintro ⟨⟨name, hn, -⟩, -⟩
  cases hn

theorem isSheet_singleton : IsSheet fs ending p [name] content ↔
    name ∈ fs.list p.location ∧ isStylesheet ending name = true ∧
      ∃ q, fs.enter p name = .ok q ∧ fs.content? q.location = some content := by
  constructor
  · rintro ⟨⟨n, hn, hs⟩, q, hd, -, hc⟩
    cases hn
    cases hd with
    | down hm he h =>
      cases h
      exact ⟨hm, hs, q, he, hc⟩
  · rintro ⟨hm, hs, q, he, hc⟩
    have hq := Bool.eq_false_iff.mpr (not_isDirectory_of_content? hc)
    exact ⟨⟨name, rfl, hs⟩, q, .down hm he (.here q), hq, hc⟩

theorem isSheet_cons {n : Text} : IsSheet fs ending p (name :: n :: trail) content ↔
    name ∈ fs.list p.location ∧
      ∃ q, fs.enter p name = .ok q ∧ IsSheet fs ending q (n :: trail) content := by
  constructor
  · rintro ⟨⟨m, hn, hs⟩, r, hd, hr⟩
    cases hd with
    | down hm he h =>
      rw [List.getLast?_cons_cons] at hn
      exact ⟨hm, _, he, ⟨m, hn, hs⟩, r, h, hr⟩
  · rintro ⟨hm, q, he, ⟨m, hn, hs⟩, r, hd, hr⟩
    rw [← List.getLast?_cons_cons (a := name)] at hn
    exact ⟨⟨m, hn, hs⟩, r, .down hm he hd, hr⟩

abbrev Sheet := List Text × List UInt8

def Sheet.found (path : Text) (s : Sheet) : Found := ⟨Path.normal (s.1.foldl Path.child path), s.2⟩

def sheetHere? (fs : FileSystem) (ending : Text) (p : Place) (name : Text) : Option Sheet :=
  match fs.enter p name with
  | .ok q =>
    if isStylesheet ending name then (fs.content? q.location).map fun content => ([name], content)
    else none
  | .error _ => none

def folderHere? (fs : FileSystem) (folder : Folder) (name : Text) : Option (Text × Folder) :=
  match fs.enter folder.place name with
  | .ok q =>
    if fs.isDirectory q.location then some (name, ⟨q, Path.child folder.path name⟩) else none
  | .error _ => none

variable {folder : Folder} {listing : Listing} {files : List Found}

theorem sheetHere?_eq_some {s : Sheet} : sheetHere? fs ending p name = some s ↔
    s.1 = [name] ∧ isStylesheet ending name = true ∧
      ∃ q, fs.enter p name = .ok q ∧ fs.content? q.location = some s.2 := by
  obtain ⟨trail, content⟩ := s
  unfold sheetHere?
  cases he : fs.enter p name with
  | error cause => simp
  | ok q =>
    by_cases hs : isStylesheet ending name = true
    · dsimp only
      rw [if_pos hs]
      cases hc : fs.content? q.location with
      | none => simp [hc]
      | some c =>
        simp only [Option.map_some, Option.some.injEq, Prod.mk.injEq, hs, true_and, Except.ok.injEq,
          exists_eq_left', hc]
        exact and_congr eq_comm Iff.rfl
    · simp [hs]

theorem folderHere?_eq_some {b : Text × Folder} : folderHere? fs folder name = some b ↔
    b.1 = name ∧ b.2.path = Path.child folder.path name ∧ fs.enter folder.place name = .ok b.2.place ∧
      fs.isDirectory b.2.place.location = true := by
  obtain ⟨n, q, path⟩ := b
  unfold folderHere?
  cases he : fs.enter folder.place name with
  | error cause => simp
  | ok r =>
    simp only [Option.ite_none_right_eq_some, Option.some.injEq, Prod.mk.injEq, Folder.mk.injEq,
      Except.ok.injEq]
    constructor
    · rintro ⟨hd, rfl, rfl, rfl⟩
      exact ⟨rfl, rfl, rfl, hd⟩
    · rintro ⟨rfl, rfl, rfl, hd⟩
      exact ⟨hd, rfl, rfl, rfl⟩

theorem inspect_ok (h : fs.inspect ending folder name = .ok listing) :
    listing.files = (sheetHere? fs ending folder.place name).toList.map (Sheet.found folder.path) ∧
      listing.folders = (folderHere? fs folder name).toList.map Prod.snd := by
  unfold inspect at h
  dsimp only at h
  split at h
  · cases h
  · split at h
    · cases h
    · next q he =>
      rw [sheetHere?, folderHere?, he]
      dsimp only
      rcases isStanding_enter he with hd | hc
      · rw [content?_eq_none_of_isDirectory hd] at h ⊢
        cases h
        rw [if_pos hd]
        split <;> exact ⟨rfl, rfl⟩
      · obtain ⟨content, hc⟩ := Option.isSome_iff_exists.mp hc
        have hd := not_isDirectory_of_content? hc
        rw [hc] at h ⊢
        cases h
        rw [if_neg hd]
        split <;> exact ⟨rfl, rfl⟩

theorem inspectAll_ok (h : fs.inspectAll ending folder names = .ok listing) :
    listing.files = (names.filterMap (sheetHere? fs ending folder.place)).map (Sheet.found folder.path) ∧
      listing.folders = (names.filterMap (folderHere? fs folder)).map Prod.snd := by
  induction names generalizing listing with
  | nil =>
    cases h
    exact ⟨rfl, rfl⟩
  | cons name names ih =>
    obtain ⟨first, hf, h⟩ := bind_eq_ok.mp h
    obtain ⟨rest, hr, h⟩ := bind_eq_ok.mp h
    cases h
    obtain ⟨hf1, hf2⟩ := inspect_ok hf
    obtain ⟨hr1, hr2⟩ := ih hr
    rw [List.filterMap_cons, List.filterMap_cons]
    constructor
    · rw [Listing.append, hf1, hr1]
      cases sheetHere? fs ending folder.place name <;> rfl
    · rw [Listing.append, hf2, hr2]
      cases folderHere? fs folder name <;> rfl

theorem walk_eq : fs.walk ending folder = (fs.contents ending folder).bind fun listing =>
    (listing.folders.reverse.mapM (fs.walk ending)).map fun found => listing.files ++ found.flatten := by
  rw [walk]
  cases hc : fs.contents ending folder with
  | error f => rfl
  | ok listing =>
    have ha : (listing.folders.reverse.attach.mapM fun below => fs.walk ending below.1) =
        listing.folders.reverse.mapM (fs.walk ending) := by
      have hm := List.mapM_map (f := Subtype.val) (g := fs.walk ending) (l := listing.folders.reverse.attach)
      rw [List.attach_map_subtype_val] at hm
      exact hm.symm
    change Except.map _ _ = Except.map _ _
    rw [ha]

def sheetsHere (fs : FileSystem) (ending : Text) (place : Place) : List Sheet :=
  (fs.list place.location).filterMap (sheetHere? fs ending place)

def foldersHere (fs : FileSystem) (folder : Folder) : List (Text × Folder) :=
  ((fs.list folder.place.location).filterMap (folderHere? fs folder)).reverse

theorem mem_foldersHere {b : Text × Folder} :
    b ∈ fs.foldersHere folder ↔
      ∃ name ∈ fs.list folder.place.location, folderHere? fs folder name = some b := by
  rw [foldersHere, List.mem_reverse, List.mem_filterMap]

theorem rank_lt_of_mem_foldersHere {b : Text × Folder} (h : b ∈ fs.foldersHere folder) :
    fs.rank b.2.place < fs.rank folder.place := by
  obtain ⟨name, -, hn⟩ := mem_foldersHere.mp h
  exact rank_enter_lt (folderHere?_eq_some.mp hn).2.2.1

theorem path_of_mem_foldersHere {b : Text × Folder} (h : b ∈ fs.foldersHere folder) :
    b.2.path = Path.child folder.path b.1 := by
  obtain ⟨name, -, hn⟩ := mem_foldersHere.mp h
  obtain ⟨h1, h2, -⟩ := folderHere?_eq_some.mp hn
  rw [h1, h2]

theorem nodup_foldersHere : ((fs.foldersHere folder).map Prod.fst).Nodup := by
  rw [foldersHere, List.map_reverse, List.nodup_reverse, List.map_filterMap]
  apply list_nodup.filterMap
  intro m n name hm hn
  obtain ⟨b, hb, rfl⟩ := Option.map_eq_some_iff.mp hm
  obtain ⟨c, hc, he⟩ := Option.map_eq_some_iff.mp hn
  rw [← (folderHere?_eq_some.mp hb).1, ← (folderHere?_eq_some.mp hc).1, he]

theorem nodup_sheetsHere {place : Place} : ((fs.sheetsHere ending place).map Prod.fst).Nodup := by
  rw [sheetsHere, List.map_filterMap]
  apply list_nodup.filterMap
  intro m n trail hm hn
  obtain ⟨s, hs, rfl⟩ := Option.map_eq_some_iff.mp hm
  obtain ⟨t, ht, he⟩ := Option.map_eq_some_iff.mp hn
  have hms := (sheetHere?_eq_some.mp hs).1
  have hnt := (sheetHere?_eq_some.mp ht).1
  rw [he, hms] at hnt
  exact (List.cons.inj hnt).1

theorem mem_sheetsHere {place : Place} {s : Sheet} : s ∈ fs.sheetsHere ending place ↔
    ∃ name, s.1 = [name] ∧ IsSheet fs ending place [name] s.2 := by
  rw [sheetsHere, List.mem_filterMap]
  constructor
  · rintro ⟨name, hn, h⟩
    obtain ⟨he, hend, hq⟩ := sheetHere?_eq_some.mp h
    exact ⟨name, he, isSheet_singleton.mpr ⟨hn, hend, hq⟩⟩
  · rintro ⟨name, he, h⟩
    obtain ⟨hn, hend, hq⟩ := isSheet_singleton.mp h
    exact ⟨name, hn, sheetHere?_eq_some.mpr ⟨he, hend, hq⟩⟩

structure Lists (fs : FileSystem) (ending : Text) (folder : Folder) (files : List Found)
    (sheets : List Sheet) : Prop where
  files : files = sheets.map (Sheet.found folder.path)
  distinct : (sheets.map Prod.fst).Nodup
  complete : ∀ trail content, (trail, content) ∈ sheets ↔
    IsSheet fs ending folder.place trail content

structure ListsBelow (fs : FileSystem) (ending : Text) (path : Text) (below : List (Text × Folder))
    (files : List Found) (sheets : List Sheet) : Prop where
  files : files = sheets.map (Sheet.found path)
  distinct : (sheets.map Prod.fst).Nodup
  complete : ∀ trail content, (trail, content) ∈ sheets ↔
    ∃ b ∈ below, ∃ rest, trail = b.1 :: rest ∧ IsSheet fs ending b.2.place rest content

theorem listsBelow_nil {path : Text} : ListsBelow fs ending path [] [] [] where
  files := rfl
  distinct := List.nodup_nil
  complete := by simp

theorem listsBelow_cons {path : Text} {b : Text × Folder} {below : List (Text × Folder)}
    {rest : List Found} {here sheets : List Sheet} (hb : Lists fs ending b.2 files here)
    (hs : ListsBelow fs ending path below rest sheets) (hp : b.2.path = Path.child path b.1)
    (hn : b.1 ∉ below.map Prod.fst) :
    ListsBelow fs ending path (b :: below) (files ++ rest)
      (here.map (fun s => (b.1 :: s.1, s.2)) ++ sheets) where
  files := by
    rw [hb.files, hs.files, List.map_append, List.map_map, hp]
    rfl
  distinct := by
    have hkeys : (here.map fun s => (b.1 :: s.1, s.2)).map Prod.fst =
        (here.map Prod.fst).map (b.1 :: ·) := by
      rw [List.map_map, List.map_map]
      rfl
    rw [List.map_append, hkeys, List.nodup_append]
    refine ⟨hb.distinct.map fun x y h => (List.cons.inj h).2, hs.distinct, ?_⟩
    rintro x hx y hy rfl
    obtain ⟨t, -, rfl⟩ := List.mem_map.mp hx
    obtain ⟨s, hs', he⟩ := List.mem_map.mp hy
    obtain ⟨b', hb', r, hr, -⟩ := (hs.complete s.1 s.2).mp hs'
    rw [he] at hr
    exact hn (List.mem_map.mpr ⟨b', hb', (List.cons.inj hr).1.symm⟩)
  complete := by
    intro trail content
    rw [List.mem_append, hs.complete]
    constructor
    · rintro (h | ⟨b', hb', h⟩)
      · obtain ⟨s, hs', he⟩ := List.mem_map.mp h
        cases he
        exact ⟨b, List.mem_cons_self, s.1, rfl, (hb.complete s.1 s.2).mp hs'⟩
      · exact ⟨b', List.mem_cons_of_mem b hb', h⟩
    · rintro ⟨b', hb', r, rfl, h⟩
      rcases List.mem_cons.mp hb' with rfl | hb'
      · exact .inl (List.mem_map.mpr ⟨(r, content), (hb.complete r content).mpr h, rfl⟩)
      · exact .inr ⟨b', hb', r, rfl, h⟩

theorem Lists.mem_iff_isEntry {sheets : List Sheet} (h : Lists fs ending folder files sheets) :
    trail ∈ sheets.map Prod.fst ↔ IsEntry fs ending folder.place trail := by
  rw [isEntry_iff_exists_isSheet, List.mem_map]
  constructor
  · rintro ⟨s, hs, rfl⟩
    exact ⟨s.2, (h.complete s.1 s.2).mp hs⟩
  · rintro ⟨content, hc⟩
    exact ⟨(trail, content), (h.complete trail content).mpr hc, rfl⟩

theorem exists_listsBelow {path : Text} {below : List (Text × Folder)} {found : List (List Found)}
    (hw : List.Forall₂ (fun b files => ∃ sheets, Lists fs ending b.2 files sheets) below found)
    (hp : ∀ b ∈ below, b.2.path = Path.child path b.1) (hn : (below.map Prod.fst).Nodup) :
    ∃ sheets, ListsBelow fs ending path below found.flatten sheets := by
  induction hw with
  | nil => exact ⟨[], listsBelow_nil⟩
  | @cons b files below found hb hw ih =>
    obtain ⟨here, hh⟩ := hb
    rw [List.map_cons, List.nodup_cons] at hn
    obtain ⟨sheets, hs⟩ := ih (fun b' hb' => hp b' (List.mem_cons_of_mem b hb')) hn.2
    exact ⟨_, listsBelow_cons hh hs (hp b List.mem_cons_self) hn.1⟩

theorem lists_of_listsBelow {rest : List Found} {sheets : List Sheet}
    (hs : ListsBelow fs ending folder.path (fs.foldersHere folder) rest sheets) :
    Lists fs ending folder ((fs.sheetsHere ending folder.place).map (Sheet.found folder.path) ++ rest)
      (fs.sheetsHere ending folder.place ++ sheets) where
  files := by rw [hs.files, List.map_append]
  distinct := by
    rw [List.map_append, List.nodup_append]
    refine ⟨nodup_sheetsHere, hs.distinct, ?_⟩
    rintro x hx y hy rfl
    obtain ⟨s, hs', rfl⟩ := List.mem_map.mp hx
    obtain ⟨n, hn, -⟩ := mem_sheetsHere.mp hs'
    obtain ⟨t, ht, he⟩ := List.mem_map.mp hy
    obtain ⟨b, -, r, hr, hsheet⟩ := (hs.complete t.1 t.2).mp ht
    rw [he, hn] at hr
    rw [← (List.cons.inj hr).2] at hsheet
    exact not_isSheet_nil hsheet
  complete := by
    intro trail content
    rw [List.mem_append, hs.complete, mem_sheetsHere]
    constructor
    · rintro (⟨n, rfl, h⟩ | ⟨b, hbm, r, rfl, h⟩)
      · exact h
      · obtain ⟨n, hn, hf⟩ := mem_foldersHere.mp hbm
        obtain ⟨rfl, -, he, -⟩ := folderHere?_eq_some.mp hf
        cases r with
        | nil => exact absurd h not_isSheet_nil
        | cons m r => exact isSheet_cons.mpr ⟨hn, b.2.place, he, h⟩
    · intro h
      match trail, h with
      | [], h => exact absurd h not_isSheet_nil
      | [n], h => exact .inl ⟨n, rfl, h⟩
      | n :: m :: r, h =>
        obtain ⟨hn, q, he, hsheet⟩ := isSheet_cons.mp h
        have hd : fs.isDirectory q.location = true := by
          obtain ⟨-, x, hx, -⟩ := hsheet
          exact hx.isDirectory
        have hf : folderHere? fs folder n = some (n, ⟨q, Path.child folder.path n⟩) :=
          folderHere?_eq_some.mpr ⟨rfl, rfl, he, hd⟩
        exact .inr ⟨_, mem_foldersHere.mpr ⟨n, hn, hf⟩, m :: r, rfl, hsheet⟩

theorem exists_lists_of_walk (h : fs.walk ending folder = .ok files) :
    ∃ sheets, Lists fs ending folder files sheets := by
  -- a link can lead upward, so it is the measure of the walk that gets smaller
  induction hr : fs.rank folder.place using Nat.strongRecOn generalizing folder files with
  | _ rank ih =>
    rw [walk_eq] at h
    obtain ⟨listing, hc, h⟩ := bind_eq_ok.mp h
    obtain ⟨found, hm, rfl⟩ := map_eq_ok.mp h
    obtain ⟨hf, hl⟩ := inspectAll_ok hc
    have hw : List.Forall₂ (fun b files => ∃ sheets, Lists fs ending b.2 files sheets)
        (fs.foldersHere folder) found := by
      have hall := mapM_eq_ok.mp hm
      rw [hl, ← List.map_reverse, List.forall₂_map_left_iff] at hall
      have hlt : ∀ b ∈ fs.foldersHere folder, fs.rank b.2.place < rank :=
        fun b hb => hr ▸ rank_lt_of_mem_foldersHere hb
      refine ((List.forall₂_and_left _ _).mpr ⟨hlt, hall⟩).imp ?_
      rintro b files ⟨hlt, hwalk⟩
      exact ih _ hlt hwalk rfl
    obtain ⟨sheets, hs⟩ := exists_listsBelow hw (fun b => path_of_mem_foldersHere) nodup_foldersHere
    rw [hf]
    exact ⟨_, lists_of_listsBelow hs⟩

theorem exists_lists_of_find {path : Text} (h : fs.find ending path = .ok files) :
    ∃ start sheets, fs.resolve path = .ok start ∧ fs.isDirectory start.location = true ∧
      Lists fs ending ⟨start, path⟩ files sheets := by
  unfold find at h
  split at h
  · cases h
  · next p hp =>
    split at h
    · next hd =>
      obtain ⟨sheets, hs⟩ := exists_lists_of_walk h
      exact ⟨p, sheets, hp, hd, hs⟩
    · cases h

end ColorCensus.FileSystem
