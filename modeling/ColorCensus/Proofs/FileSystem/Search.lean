import ColorCensus.FileSystem.Scan
import ColorCensus.Proofs.FileSystem.Order
import ColorCensus.Proofs.FileSystem.Passage

namespace ColorCensus.FileSystem

open Text

variable {fs : FileSystem} {ending name path : Text} {folder : Folder} {listing : Listing} {q : Place}
  {pending found names : List Text} {result : Except PathFault (List Text)} {s : Search}

def HasFileNames (fs : FileSystem) : Prop :=
  ∀ name parent entry, fs.lookup? (name :: parent) = some entry → IsFileName name

theorem HasFileNames.of_mem_list {location : Location} (h : fs.HasFileNames)
    (hm : name ∈ fs.list location) : IsFileName name := by
  obtain ⟨entry, he⟩ := mem_list_iff.mp hm
  exact h name location entry he

structure Folder.Leads (fs : FileSystem) (folder : Folder) : Prop where
  resolves : fs.resolve folder.path = .ok folder.place
  directory : fs.isDirectory folder.place.location = true

theorem Folder.Leads.scan (h : Folder.Leads fs folder) :
    fs.scan folder.path = .ok (fs.list folder.place.location) := by
  rw [FileSystem.scan, h.resolves]
  exact if_pos h.directory

theorem exists_leads_of_scan (h : fs.scan path = .ok names) :
    ∃ p, Folder.Leads fs ⟨p, path⟩ ∧ names = fs.list p.location := by
  unfold scan at h
  split at h
  · cases h
  · next p hp =>
    split at h
    · next hd => exact ⟨p, ⟨hp, hd⟩, (Except.ok.inj h).symm⟩
    · cases h

variable (hfs : fs.HasFileNames) (hl : Folder.Leads fs folder) (hm : name ∈ fs.list folder.place.location)

include hfs hl hm in
theorem resolve_entry : fs.resolve (Path.child folder.path name) =
    if isTooLong pathLimit (Path.child folder.path name) then .error .nameTooLong
    else fs.enter folder.place name :=
  resolve_child hl.resolves hl.directory (hfs.of_mem_list hm)

include hfs hl hm in
theorem enter_of_resolve (h : fs.resolve (Path.child folder.path name) = .ok q) :
    fs.enter folder.place name = .ok q := by
  rw [resolve_entry hfs hl hm] at h
  split at h
  · cases h
  · exact h

def Search.plus (s : Search) (listing : Listing) : Search :=
  ⟨(listing.folders.map Folder.path).reverse ++ s.pending, s.found ++ listing.files.map Found.path⟩

theorem Search.plus_append (s : Search) (x y : Listing) : s.plus (x.append y) = (s.plus x).plus y := by
  simp [plus, Listing.append]

include hfs hl hm in
theorem visit_eq (s : Search) : Search.visit fs ending folder.path s name =
    (fs.inspect ending folder name).map s.plus := by
  rw [Search.visit, inspect, resolve_entry hfs hl hm]
  by_cases hlong : isTooLong pathLimit (Path.child folder.path name) = true
  · rw [if_pos hlong, if_pos hlong]
    rfl
  · rw [if_neg hlong, if_neg hlong]
    cases he : fs.enter folder.place name with
    | error cause => rfl
    | ok q =>
      dsimp only
      rcases isStanding_enter he with hd | hc
      · rw [content?_eq_none_of_isDirectory hd, if_pos hd]
        simp [Except.map, Search.plus]
      · obtain ⟨content, hc⟩ := Option.isSome_iff_exists.mp hc
        have hd := not_isDirectory_of_content? hc
        rw [hc, if_neg hd]
        split <;> simp [Except.map, Search.plus, Listing.empty]

include hfs hl in
theorem foldlM_visit (hnames : ∀ name ∈ names, name ∈ fs.list folder.place.location) (s : Search) :
    names.foldlM (Search.visit fs ending folder.path) s =
      (fs.inspectAll ending folder names).map s.plus := by
  induction names generalizing s with
  | nil => simp [inspectAll, Except.map, Search.plus, Listing.empty, pure, Except.pure]
  | cons name names ih =>
    obtain ⟨hm, hnames⟩ := List.forall_mem_cons.mp hnames
    rw [List.foldlM_cons, visit_eq hfs hl hm, inspectAll]
    cases fs.inspect ending folder name with
    | error f => rfl
    | ok first =>
      change names.foldlM _ (s.plus first) = _
      rw [ih hnames]
      cases fs.inspectAll ending folder names with
      | error f => rfl
      | ok rest => exact congrArg Except.ok (Search.plus_append s first rest).symm

include hfs hl in
theorem step_eq (s : Search) :
    Search.step fs ending folder.path s = (fs.contents ending folder).map s.plus := by
  rw [Search.step, hl.scan]
  exact foldlM_visit hfs hl (fun _ h => h) s

include hfs hl hm in
theorem exists_inspect_iff : (∃ listing, fs.inspect ending folder name = .ok listing) ↔
    ∃ q, fs.resolve (Path.child folder.path name) = .ok q := by
  have hvisit : Search.visit fs ending folder.path ⟨[], []⟩ name = _ := visit_eq hfs hl hm ⟨[], []⟩
  rw [Search.visit] at hvisit
  constructor
  · rintro ⟨listing, h⟩
    rw [h] at hvisit
    cases hr : fs.resolve (Path.child folder.path name) with
    | ok q => exact ⟨q, rfl⟩
    | error cause =>
      rw [hr] at hvisit
      cases hvisit
  · rintro ⟨q, h⟩
    cases hi : fs.inspect ending folder name with
    | ok listing => exact ⟨listing, rfl⟩
    | error f =>
      rw [h, hi] at hvisit
      dsimp only at hvisit
      split at hvisit
      · cases hvisit
      · split at hvisit <;> cases hvisit

theorem name_mem_of_mem_foldersHere {b : Text × Folder} (hb : b ∈ fs.foldersHere folder) :
    b.1 ∈ fs.list folder.place.location := by
  obtain ⟨name, hm, hn⟩ := mem_foldersHere.mp hb
  rwa [(folderHere?_eq_some.mp hn).1]

include hfs hl in
theorem leads_of_mem_foldersHere {b : Text × Folder} (hb : b ∈ fs.foldersHere folder)
    (hr : ∃ q, fs.resolve (Path.child folder.path b.1) = .ok q) : Folder.Leads fs b.2 := by
  obtain ⟨name, hm, hn⟩ := mem_foldersHere.mp hb
  obtain ⟨rfl, hpath, he, hd⟩ := folderHere?_eq_some.mp hn
  obtain ⟨q, hq⟩ := hr
  have hplace := enter_of_resolve hfs hl hm hq
  rw [he] at hplace
  exact ⟨by rw [hpath, hq, Except.ok.inj hplace], hd⟩

namespace Search

theorem ends_mapM {below : List Folder}
    (h : ∀ b ∈ below, ∀ pending found result,
      (∀ files, fs.walk ending b = .ok files → Ends fs ending ⟨pending, found ++ files.map Found.path⟩ result) →
      (∀ f, fs.walk ending b = .error f → result = .error f) →
      Ends fs ending ⟨b.path :: pending, found⟩ result)
    (hok : ∀ files, below.mapM (fs.walk ending) = .ok files →
      Ends fs ending ⟨pending, found ++ files.flatten.map Found.path⟩ result)
    (herr : ∀ f, below.mapM (fs.walk ending) = .error f → result = .error f) :
    Ends fs ending ⟨below.map Folder.path ++ pending, found⟩ result := by
  induction below generalizing found with
  | nil => simpa using hok [] rfl
  | cons b below ih =>
    obtain ⟨hb, hbelow⟩ := List.forall_mem_cons.mp h
    have hcons : (b :: below).mapM (fs.walk ending) = (fs.walk ending b).bind fun files =>
        (below.mapM (fs.walk ending)).map (files :: ·) := by
      rw [List.mapM_cons]
      rfl
    rw [hcons] at hok herr
    refine hb _ found result (fun files hf => ?_) fun f hf => herr f (by rw [hf]; rfl)
    rw [hf] at hok herr
    refine ih hbelow (fun rest hr => ?_) fun f hf => herr f (by simp [Except.bind, hf, Except.map])
    have hrest := hok (files :: rest) (by simp [Except.bind, hr, Except.map])
    simpa using hrest

theorem ends_walk (hfs : fs.HasFileNames) (hl : Folder.Leads fs folder)
    (hok : ∀ files, fs.walk ending folder = .ok files →
      Ends fs ending ⟨pending, found ++ files.map Found.path⟩ result)
    (herr : ∀ f, fs.walk ending folder = .error f → result = .error f) :
    Ends fs ending ⟨folder.path :: pending, found⟩ result := by
  induction hr : fs.rank folder.place using Nat.strongRecOn generalizing folder pending found result with
  | _ rank ih =>
    have hstep : Search.step fs ending folder.path ⟨pending, found⟩ = _ := step_eq hfs hl ⟨pending, found⟩
    rw [walk_eq] at hok herr
    cases hc : fs.contents ending folder with
    | error f =>
      rw [hc] at hstep herr
      rw [herr f rfl]
      exact .fault hstep
    | ok listing =>
      rw [hc] at hstep hok herr
      refine .next hstep ?_
      rw [plus, ← List.map_reverse]
      have hnames := exists_inspectAll_iff.mp ⟨listing, hc⟩
      have hfolders : ∀ b ∈ listing.folders.reverse, ∃ n, (n, b) ∈ fs.foldersHere folder := by
        intro b hb
        rw [(inspectAll_ok hc).2, ← List.map_reverse] at hb
        obtain ⟨⟨n, b⟩, hn, rfl⟩ := List.mem_map.mp hb
        exact ⟨n, hn⟩
      refine ends_mapM (fun b hb pending found result hok herr => ?_) (fun files hf => ?_) fun f hf => ?_
      · obtain ⟨n, hn⟩ := hfolders b hb
        have hm := name_mem_of_mem_foldersHere hn
        have hlb := leads_of_mem_foldersHere hfs hl hn ((exists_inspect_iff hfs hl hm).mp (hnames n hm))
        exact ih _ (hr ▸ rank_lt_of_mem_foldersHere hn) hlb hok herr rfl
      · have hall := hok (listing.files ++ files.flatten) (by simp [Except.bind, hf, Except.map])
        simpa using hall
      · exact herr f (by simp [Except.bind, hf, Except.map])

theorem ends_find (hfs : fs.HasFileNames) (ending path : Text) :
    Ends fs ending ⟨[path], []⟩ ((fs.find ending path).map (·.map Found.path)) := by
  cases hr : fs.resolve path with
  | error cause =>
    rw [find, hr]
    refine .fault ?_
    rw [step, scan, hr]
    rfl
  | ok p =>
    rw [find, hr]
    dsimp only
    split
    · next hd =>
      have hl : Folder.Leads fs ⟨p, path⟩ := ⟨hr, hd⟩
      refine ends_walk hfs hl (fun files hf => ?_) fun f hf => ?_
      · rw [hf]
        exact .done _
      · rw [hf]
        rfl
    · next hd =>
      refine .fault ?_
      rw [step, scan, hr]
      dsimp only
      rw [if_neg hd]
      rfl

end Search

end ColorCensus.FileSystem
