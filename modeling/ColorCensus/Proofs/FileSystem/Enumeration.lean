import ColorCensus.FileSystem.Change
import ColorCensus.Proofs.FileSystem.Search

namespace ColorCensus.FileSystem

open Text

variable {fs : FileSystem} {ending name path : Text} {folder : Folder} {p q : Place}
  {names trail : List Text} {files : List Found} {sheets : List Sheet}

def IsFolder (fs : FileSystem) (path : Text) : Prop :=
  ∃ p, fs.resolve path = .ok p ∧ fs.isDirectory p.location = true

inductive Meets (fs : FileSystem) : Text → List Text → Prop where
  | entry {path name : Text} {names : List Text} (h : fs.scan path = .ok names) (hm : name ∈ names) :
    Meets fs path [name]
  | down {path name : Text} {names trail : List Text} (h : fs.scan path = .ok names) (hm : name ∈ names)
    (ht : Meets fs (Path.child path name) trail) : Meets fs path (name :: trail)

structure IsSearchable (fs : FileSystem) (path : Text) : Prop where
  start : ∃ names, fs.scan path = .ok names
  entries : ∀ trail, Meets fs path trail → ∃ p, fs.resolve (Path.below path trail) = .ok p
  folders : ∀ trail, Meets fs path trail → fs.IsFolder (Path.below path trail) →
    ∃ names, fs.scan (Path.below path trail) = .ok names

structure IsFileBelow (fs : FileSystem) (ending path : Text) (trail : List Text) : Prop where
  meets : Meets fs path trail
  file : ¬ fs.IsFolder (Path.below path trail)
  named : ∃ name, trail.getLast? = some name ∧ isStylesheet ending name = true

structure IsEnumeration (fs : FileSystem) (ending path : Text) (paths : List Text) : Prop where
  distinct : paths.Nodup
  trails : ∃ trails : List (List Text), trails.Nodup ∧
    (∀ trail, trail ∈ trails ↔ fs.IsFileBelow ending path trail) ∧
    paths = trails.map fun trail => Path.normal (Path.below path trail)

theorem isFolder_iff : fs.IsFolder path ↔ ∃ names, fs.scan path = .ok names := by
  constructor
  · rintro ⟨p, hp, hd⟩
    have hl : Folder.Leads fs ⟨p, path⟩ := ⟨hp, hd⟩
    exact ⟨_, hl.scan⟩
  · rintro ⟨names, h⟩
    obtain ⟨p, hl, -⟩ := exists_leads_of_scan h
    exact ⟨p, hl.resolves, hl.directory⟩

theorem IsFolder.isDirectory (h : fs.IsFolder path) (hq : fs.resolve path = .ok q) :
    fs.isDirectory q.location = true := by
  obtain ⟨p, hp, hd⟩ := h
  rw [hp] at hq
  rwa [← Except.ok.inj hq]

theorem Meets.isFolder (h : Meets fs path trail) : fs.IsFolder path := by
  cases h with
  | entry h => exact isFolder_iff.mpr ⟨_, h⟩
  | down h => exact isFolder_iff.mpr ⟨_, h⟩

theorem Meets.ne_nil (h : Meets fs path trail) : trail ≠ [] := by
  cases h <;> simp

theorem Meets.isFileName (hfs : fs.HasFileNames) (h : Meets fs path trail) :
    ∀ name ∈ trail, IsFileName name := by
  have hname {path name : Text} {names : List Text} (h : fs.scan path = .ok names) (hm : name ∈ names) :
      IsFileName name := by
    obtain ⟨p, -, rfl⟩ := exists_leads_of_scan h
    exact hfs.of_mem_list hm
  induction h with
  | entry h hm => simpa using hname h hm
  | down h hm _ ih => exact List.forall_mem_cons.mpr ⟨hname h hm, ih⟩

variable (hfs : fs.HasFileNames) (hl : Folder.Leads fs folder)

include hl in
theorem Folder.Leads.eq_list (h : fs.scan folder.path = .ok names) :
    names = fs.list folder.place.location := by
  rw [hl.scan] at h
  exact (Except.ok.inj h).symm

theorem leads_child (h : fs.resolve (Path.child folder.path name) = .ok q)
    (hd : fs.isDirectory q.location = true) : Folder.Leads fs ⟨q, Path.child folder.path name⟩ := ⟨h, hd⟩

include hfs hl in
theorem exists_walk_iff_entries : (∃ files, fs.walk ending folder = .ok files) ↔
    ∀ trail, Meets fs folder.path trail → ∃ p, fs.resolve (Path.below folder.path trail) = .ok p := by
  induction hr : fs.rank folder.place using Nat.strongRecOn generalizing folder with
  | _ rank ih =>
    rw [exists_walk_iff]
    constructor
    · rintro ⟨hnames, hbelow⟩ trail ht
      cases ht with
      | entry h hm =>
        rw [hl.eq_list h] at hm
        exact (exists_inspect_iff hfs hl hm).mp (hnames _ hm)
      | @down _ name names trail h hm ht =>
        rw [hl.eq_list h] at hm
        obtain ⟨q, hq⟩ := (exists_inspect_iff hfs hl hm).mp (hnames _ hm)
        have hd := ht.isFolder.isDirectory hq
        have he := enter_of_resolve hfs hl hm hq
        have hb : (name, Folder.mk q (Path.child folder.path name)) ∈ fs.foldersHere folder :=
          mem_foldersHere.mpr ⟨name, hm, folderHere?_eq_some.mpr ⟨rfl, rfl, he, hd⟩⟩
        exact (ih _ (hr ▸ rank_lt_of_mem_foldersHere hb) (leads_child hq hd) rfl).mp (hbelow _ hb) trail ht
    · intro hall
      have hnames : ∀ name ∈ fs.list folder.place.location,
          ∃ q, fs.resolve (Path.child folder.path name) = .ok q :=
        fun name hm => hall [name] (.entry hl.scan hm)
      refine ⟨fun name hm => (exists_inspect_iff hfs hl hm).mpr (hnames name hm), fun b hb => ?_⟩
      have hm := name_mem_of_mem_foldersHere hb
      have hlb := leads_of_mem_foldersHere hfs hl hb (hnames b.1 hm)
      refine (ih _ (hr ▸ rank_lt_of_mem_foldersHere hb) hlb rfl).mpr fun trail ht => ?_
      rw [path_of_mem_foldersHere hb] at ht ⊢
      exact hall (b.1 :: trail) (.down hl.scan hm ht)

include hfs hl in
theorem descends_iff (hall : ∀ trail, Meets fs folder.path trail →
      ∃ p, fs.resolve (Path.below folder.path trail) = .ok p) (h0 : trail ≠ []) :
    Descends fs folder.place trail q ↔
      Meets fs folder.path trail ∧ fs.resolve (Path.below folder.path trail) = .ok q := by
  induction trail generalizing folder with
  | nil => exact absurd rfl h0
  | cons name trail ih =>
    have hbelow {r : Place} (hm : name ∈ fs.list folder.place.location)
        (hr : fs.resolve (Path.child folder.path name) = .ok r) (hd : fs.isDirectory r.location = true)
        (ht : trail ≠ []) : Descends fs r trail q ↔ Meets fs (Path.child folder.path name) trail ∧
          fs.resolve (Path.below (Path.child folder.path name) trail) = .ok q := by
      have hlc : Folder.Leads fs ⟨r, Path.child folder.path name⟩ := ⟨hr, hd⟩
      exact ih hlc (fun trail ht => hall (name :: trail) (.down hl.scan hm ht)) ht
    constructor
    · intro h
      cases h with
      | @down _ r _ _ _ hm he h =>
        obtain ⟨r', hr⟩ := hall [name] (.entry hl.scan hm)
        have hr' := enter_of_resolve hfs hl hm hr
        rw [he] at hr'
        obtain rfl := Except.ok.inj hr'
        cases trail with
        | nil =>
          cases h
          exact ⟨.entry hl.scan hm, hr⟩
        | cons n trail =>
          obtain ⟨hmeets, hq⟩ := (hbelow hm hr h.isDirectory (List.cons_ne_nil n trail)).mp h
          exact ⟨.down hl.scan hm hmeets, hq⟩
    · rintro ⟨hmeets, hq⟩
      cases hmeets with
      | entry h hm =>
        rw [hl.eq_list h] at hm
        exact .down hm (enter_of_resolve hfs hl hm hq) (.here q)
      | down h hm ht =>
        rw [hl.eq_list h] at hm
        obtain ⟨r, hr⟩ := hall [name] (.entry hl.scan hm)
        exact .down hm (enter_of_resolve hfs hl hm hr)
          ((hbelow hm hr (ht.isFolder.isDirectory hr) ht.ne_nil).mpr ⟨ht, hq⟩)

include hfs hl in
theorem isEntry_iff_isFileBelow (hall : ∀ trail, Meets fs folder.path trail →
      ∃ p, fs.resolve (Path.below folder.path trail) = .ok p) :
    IsEntry fs ending folder.place trail ↔ IsFileBelow fs ending folder.path trail := by
  constructor
  · rintro ⟨hnamed, q, hd, hq⟩
    have h0 : trail ≠ [] := by
      rintro rfl
      obtain ⟨name, hn, -⟩ := hnamed
      cases hn
    obtain ⟨hmeets, hr⟩ := (descends_iff hfs hl hall h0).mp hd
    refine ⟨hmeets, fun hf => ?_, hnamed⟩
    rw [hf.isDirectory hr] at hq
    cases hq
  · rintro ⟨hmeets, hfile, hnamed⟩
    obtain ⟨q, hr⟩ := hall trail hmeets
    refine ⟨hnamed, q, (descends_iff hfs hl hall hmeets.ne_nil).mpr ⟨hmeets, hr⟩, ?_⟩
    exact Bool.eq_false_iff.mpr fun hd => hfile ⟨q, hr, hd⟩

theorem isSearchable_iff : IsSearchable fs path ↔
    ∃ p, Folder.Leads fs ⟨p, path⟩ ∧
      ∀ trail, Meets fs path trail → ∃ q, fs.resolve (Path.below path trail) = .ok q := by
  constructor
  · rintro ⟨⟨names, h⟩, hall, -⟩
    obtain ⟨p, hl, -⟩ := exists_leads_of_scan h
    exact ⟨p, hl, hall⟩
  · rintro ⟨p, hl, hall⟩
    exact ⟨⟨_, hl.scan⟩, hall, fun _ _ h => isFolder_iff.mp h⟩

theorem find_of_leads (hl : Folder.Leads fs folder) :
    fs.find ending folder.path = fs.walk ending folder := by
  rw [find, hl.resolves]
  exact if_pos hl.directory

theorem exists_find_iff (hfs : fs.HasFileNames) (ending path : Text) :
    (∃ files, fs.find ending path = .ok files) ↔ IsSearchable fs path := by
  rw [isSearchable_iff]
  constructor
  · rintro ⟨files, h⟩
    obtain ⟨p, -, hp, hd, -⟩ := exists_lists_of_find h
    have hl : Folder.Leads fs ⟨p, path⟩ := ⟨hp, hd⟩
    rw [find_of_leads hl] at h
    exact ⟨p, hl, (exists_walk_iff_entries hfs hl).mp ⟨files, h⟩⟩
  · rintro ⟨p, hl, hall⟩
    obtain ⟨files, h⟩ : ∃ files, fs.walk ending ⟨p, path⟩ = .ok files :=
      (exists_walk_iff_entries hfs hl).mpr hall
    exact ⟨files, (find_of_leads hl).trans h⟩

theorem isEnumeration_of_find (hfs : fs.HasFileNames) (h : fs.find ending path = .ok files) :
    IsEnumeration fs ending path (files.map Found.path) := by
  obtain ⟨p, sheets, hp, hd, hlists⟩ := exists_lists_of_find h
  have hl : Folder.Leads fs ⟨p, path⟩ := ⟨hp, hd⟩
  obtain ⟨-, hall, -⟩ := (exists_find_iff hfs ending path).mp ⟨files, h⟩
  have htrails : ∀ trail, trail ∈ sheets.map Prod.fst ↔ IsFileBelow fs ending path trail :=
    fun trail => hlists.mem_iff_isEntry.trans (isEntry_iff_isFileBelow hfs hl hall)
  have hpaths : files.map Found.path =
      (sheets.map Prod.fst).map fun trail => Path.normal (Path.below path trail) := by
    rw [hlists.files, List.map_map, List.map_map]
    rfl
  have h0 : path ≠ [] := by
    rintro rfl
    cases hp
  refine ⟨?_, sheets.map Prod.fst, hlists.distinct, htrails, hpaths⟩
  rw [hpaths]
  refine List.Nodup.map_on (fun t ht u hu he => ?_) hlists.distinct
  have hmt := ((htrails t).mp ht).meets
  have hmu := ((htrails u).mp hu).meets
  exact Path.normal_below_inj (hmt.isFileName hfs) (hmu.isFileName hfs) h0 hmt.ne_nil hmu.ne_nil he

theorem find_enumerates (hfs : fs.HasFileNames) (ending path : Text) :
    ((∃ files, fs.find ending path = .ok files) ↔ IsSearchable fs path) ∧
    (∀ files, fs.find ending path = .ok files → IsEnumeration fs ending path (files.map Found.path)) ∧
    Search.Ends fs ending ⟨[path], []⟩ ((fs.find ending path).map (·.map Found.path)) :=
  ⟨exists_find_iff hfs ending path, fun _ h => isEnumeration_of_find hfs h, Search.ends_find hfs ending path⟩

instance (name : Text) : Decidable (IsFileName name) :=
  decidable_of_iff ((¬ (name = [] ∨ name = Path.here ∨ name = Path.above)) ∧ CodePoint.char '/' ∉ name ∧
      IsPassable name ∧ isTooLong nameLimit name = false)
    ⟨fun h => ⟨h.1, h.2.1, h.2.2.1, h.2.2.2⟩, fun h => ⟨h.ordinary, h.unbroken, h.passable, h.short⟩⟩

theorem hasFileNames_of_entries (h : ∀ e ∈ fs.entries, ∀ name ∈ e.1.head?, IsFileName name) :
    fs.HasFileNames :=
  fun name _ _ he => h _ (mem_entries_of_lookup? he) name rfl

def linkedFolders : FileSystem :=
  (((FileSystem.empty ["w"]).write ["b.css", "a.css", "w"] (.link "../x")).write
    ["y.css", "x", "w"] (.file [] 0)).write ["z.css", "w"] (.file [] 0)

theorem find_enumerates_linkedFolders :
    linkedFolders.HasFileNames ∧ IsSearchable linkedFolders "." ∧
    IsEnumeration linkedFolders ".css" "." ["z.css", "x/y.css", "a.css/b.css/y.css"] ∧
    Search.Ends linkedFolders ".css" ⟨["."], []⟩ (.ok ["z.css", "x/y.css", "a.css/b.css/y.css"]) := by
  have hfs : linkedFolders.HasFileNames := hasFileNames_of_entries (by decide +kernel)
  have hf : linkedFolders.find ".css" "." =
      .ok [⟨"z.css", []⟩, ⟨"x/y.css", []⟩, ⟨"a.css/b.css/y.css", []⟩] := by decide +kernel
  obtain ⟨hiff, henum, hends⟩ := find_enumerates hfs ".css" "."
  rw [hf] at hends
  exact ⟨hfs, hiff.mp ⟨_, hf⟩, henum _ hf, hends⟩

end ColorCensus.FileSystem
