import ColorCensus.Proofs.FileSystem.Enumeration
import Mathlib.Logic.Hydra
import Mathlib.Logic.Relation

namespace ColorCensus.FileSystem

open Text CodePoint Relation

variable {fs : FileSystem} {ending path directory name : Text} {folder : Folder} {listing : Listing}
  {pending found names order : List Text} {s s' : Search} {p q : Place} {l m : Location} {f : PathFault}

namespace Search

inductive Turn (fs : FileSystem) (ending : Text) : Search → Except PathFault Search → Prop where
  | unlisted {directory : Text} {pending found : List Text} {f : PathFault}
    (h : fs.scan directory = .error f) : Turn fs ending ⟨directory :: pending, found⟩ (.error f)
  | listed {directory : Text} {pending found names order : List Text} {result : Except PathFault Search}
    (h : fs.scan directory = .ok names) (ho : order.Perm names)
    (hr : order.foldlM (visit fs ending directory) ⟨pending, found⟩ = result) :
    Turn fs ending ⟨directory :: pending, found⟩ result

def Next (fs : FileSystem) (ending : Text) (s s' : Search) : Prop := Turn fs ending s (.ok s')

theorem exists_turn (h : s.pending ≠ []) : ∃ result, Turn fs ending s result := by
  obtain ⟨pending, found⟩ := s
  cases pending with
  | nil => exact absurd rfl h
  | cons directory pending =>
    cases hs : fs.scan directory with
    | error f => exact ⟨_, .unlisted hs⟩
    | ok names => exact ⟨_, .listed hs (.refl _) rfl⟩

theorem exists_of_next (hfs : fs.HasFileNames) (h : Next fs ending s s') :
    ∃ folder pending found listing order, s = ⟨folder.path :: pending, found⟩ ∧
      Folder.Leads fs folder ∧ order.Perm (fs.list folder.place.location) ∧
      fs.inspectAll ending folder order = .ok listing ∧ s' = plus ⟨pending, found⟩ listing := by
  obtain ⟨waiting, found⟩ := s
  cases h with
  | @listed directory pending _ names order _ h ho hr =>
    obtain ⟨p, hl, rfl⟩ := exists_leads_of_scan h
    have hfold := (foldlM_visit hfs hl (fun name hn => ho.mem_iff.mp hn) ⟨pending, found⟩).symm.trans hr
    obtain ⟨listing, hi, hs⟩ := map_eq_ok.mp hfold
    exact ⟨⟨p, directory⟩, pending, found, listing, order, rfl, hl, ho, hi, hs.symm⟩

end Search

theorem mem_folders_iff (ho : order.Perm (fs.list folder.place.location))
    (h : fs.inspectAll ending folder order = .ok listing) {below : Folder} :
    below ∈ listing.folders ↔ ∃ name, (name, below) ∈ fs.foldersHere folder := by
  rw [(inspectAll_ok h).2, List.mem_map]
  simp only [List.mem_filterMap, mem_foldersHere, ho.mem_iff]
  constructor
  · rintro ⟨⟨n, b⟩, hb, rfl⟩
    exact ⟨n, hb⟩
  · rintro ⟨n, hb⟩
    exact ⟨(n, below), hb, rfl⟩

theorem leads_of_mem_folders (hfs : fs.HasFileNames) (hl : Folder.Leads fs folder)
    (ho : order.Perm (fs.list folder.place.location))
    (h : fs.inspectAll ending folder order = .ok listing) {below : Folder} (hb : below ∈ listing.folders) :
    Folder.Leads fs below ∧ fs.rank below.place < fs.rank folder.place := by
  obtain ⟨n, hn⟩ := (mem_folders_iff ho h).mp hb
  have hm := name_mem_of_mem_foldersHere hn
  have hi := exists_inspectAll_iff.mp ⟨listing, h⟩ n (ho.mem_iff.mpr hm)
  exact ⟨leads_of_mem_foldersHere hfs hl hn ((exists_inspect_iff hfs hl hm).mp hi),
    rank_lt_of_mem_foldersHere hn⟩

def pathRank (fs : FileSystem) (path : Text) : ℕ :=
  match fs.resolve path with
  | .ok p => fs.rank p
  | .error _ => 0

theorem Folder.Leads.pathRank_eq (h : Folder.Leads fs folder) : fs.pathRank folder.path = fs.rank folder.place := by
  rw [pathRank, h.resolves]

namespace Search

def ranks (fs : FileSystem) (s : Search) : Multiset ℕ := .ofList (s.pending.map fs.pathRank)

theorem cutExpand_of_next (hfs : fs.HasFileNames) (h : Next fs ending s s') :
    CutExpand (· < ·) (s'.ranks fs) (s.ranks fs) := by
  obtain ⟨folder, pending, found, listing, order, rfl, hl, ho, hi, rfl⟩ := exists_of_next hfs h
  refine ⟨(listing.folders.map fun b => fs.rank b.place : List ℕ), fs.rank folder.place, ?_, ?_⟩
  · intro n hn
    obtain ⟨b, hb, rfl⟩ := List.mem_map.mp (Multiset.mem_coe.mp hn)
    exact (leads_of_mem_folders hfs hl ho hi hb).2
  · have hbelow : (listing.folders.map Folder.path).map fs.pathRank =
        listing.folders.map fun b => fs.rank b.place := by
      rw [List.map_map]
      exact List.map_congr_left fun b hb => (leads_of_mem_folders hfs hl ho hi hb).1.pathRank_eq
    rw [← hbelow, ← hl.pathRank_eq]
    simp only [ranks, plus, ← Multiset.coe_singleton, Multiset.coe_add, Multiset.coe_eq_coe, List.map_append,
      List.map_cons, List.map_reverse]
    refine (List.perm_append_singleton _ _).trans (List.Perm.cons _ ?_)
    exact List.perm_append_comm.trans ((List.reverse_perm _).append_left _)

theorem wellFounded_next (hfs : fs.HasFileNames) (ending : Text) :
    WellFounded fun s' s => Next fs ending s s' :=
  Subrelation.wf (fun h => cutExpand_of_next hfs h)
    (InvImage.wf (ranks fs) (WellFounded.cutExpand Nat.lt_wfRel.wf))

end Search

theorem isSome_number_of_advance {cause : Cause} (h : fs.advance l names = .error cause) :
    cause.number.isSome = true := by
  induction names generalizing l with
  | nil => cases h
  | cons name names ih =>
    rw [advance] at h
    split at h
    · split at h
      · exact ih h
      · split at h
        · cases h
          rfl
        · split at h
          · cases h
            rfl
          · cases h
          · exact ih h
    · cases h
      rfl

theorem isSome_number_of_follow {links : ℕ} {cause : Cause} (h : fs.follow links l names = .error cause) :
    cause.number.isSome = true := by
  induction links generalizing l names with
  | zero =>
    rw [follow] at h
    cases ha : fs.advance l names with
    | error cause' =>
      rw [ha] at h
      cases h
      exact isSome_number_of_advance ha
    | ok halt =>
      rw [ha] at h
      cases halt with
      | arrived m => cases h
      | link directory target rest =>
        cases h
        rfl
  | succ links ih =>
    rw [follow] at h
    cases ha : fs.advance l names with
    | error cause' =>
      rw [ha] at h
      cases h
      exact isSome_number_of_advance ha
    | ok halt =>
      rw [ha] at h
      cases halt with
      | arrived m => cases h
      | link directory target rest => exact ih h

theorem number_of_refusal? {cause : Cause} (h : refusal? path = some cause) : cause.number = none := by
  unfold refusal? at h
  split at h
  · cases h
    rfl
  · split at h
    · cases h
      rfl
    · cases h

theorem isSome_number_iff {cause : Cause} (h : fs.resolve path = .error cause) :
    cause.number.isSome = true ↔ IsPassable path := by
  rw [← refusal?_eq_none_iff]
  rw [resolve, namesOf] at h
  cases hr : refusal? path with
  | some cause' =>
    rw [hr] at h
    cases h
    simp [number_of_refusal? hr]
  | none =>
    rw [hr] at h
    refine iff_of_true ?_ rfl
    dsimp only at h
    split at h
    · cases h
      rfl
    · split at h
      · cases h
        rfl
      · exact isSome_number_of_follow h

theorem isSome_number_of_scan (h : fs.scan path = .error f) : f.cause.number.isSome = true ↔ IsPassable path := by
  unfold scan at h
  split at h
  · next cause hc =>
    cases h
    exact isSome_number_iff hc
  · next p hp =>
    obtain ⟨names, hnames, -⟩ := bind_eq_ok.mp hp
    split at h
    · cases h
    · cases h
      exact iff_of_true rfl (namesOf_eq_ok hnames).1

namespace Search

theorem exists_of_foldlM_error (h : order.foldlM (visit fs ending directory) s = .error f) :
    ∃ name ∈ order, fs.resolve (Path.child directory name) = .error f.cause := by
  induction order generalizing s with
  | nil => cases h
  | cons name order ih =>
    rw [List.foldlM_cons] at h
    cases hv : visit fs ending directory s name with
    | ok s' =>
      rw [hv] at h
      obtain ⟨n, hn, hr⟩ := ih h
      exact ⟨n, List.mem_cons_of_mem name hn, hr⟩
    | error g =>
      rw [hv] at h
      cases h
      refine ⟨name, List.mem_cons_self, ?_⟩
      unfold visit at hv
      dsimp only at hv
      split at hv
      · next cause hc =>
        cases hv
        exact hc
      · split at hv
        · cases hv
        · split at hv <;> cases hv

theorem isPassable_pending (hfs : fs.HasFileNames) {root : Text}
    (h : ReflTransGen (Next fs ending) ⟨[root], []⟩ s) :
    ∀ path ∈ s.pending, IsPassable path ↔ IsPassable root := by
  induction h with
  | refl => simp
  | @tail s s' _ hn ih =>
    obtain ⟨folder, pending, found, listing, order, rfl, hl, ho, hi, rfl⟩ := exists_of_next hfs hn
    obtain ⟨hfolder, hpending⟩ := List.forall_mem_cons.mp ih
    intro path hp
    rcases List.mem_append.mp hp with hp | hp
    · obtain ⟨b, hb, rfl⟩ := List.mem_map.mp (List.mem_reverse.mp hp)
      obtain ⟨n, hn⟩ := (mem_folders_iff ho hi).mp hb
      rw [path_of_mem_foldersHere hn, isPassable_child_iff (hfs.of_mem_list (name_mem_of_mem_foldersHere hn))]
      exact hfolder
    · exact hpending path hp

theorem isSome_number_of_turn (hfs : fs.HasFileNames) {root : Text}
    (h : ReflTransGen (Next fs ending) ⟨[root], []⟩ s) (ht : Turn fs ending s (.error f)) :
    f.cause.number.isSome = true ↔ IsPassable root := by
  have hpending := isPassable_pending hfs h
  cases ht with
  | unlisted hs =>
    rw [isSome_number_of_scan hs]
    exact hpending _ List.mem_cons_self
  | listed hs ho hr =>
    rw [← hpending _ List.mem_cons_self]
    obtain ⟨p, hl, rfl⟩ := exists_leads_of_scan hs
    obtain ⟨n, hn, hcause⟩ := exists_of_foldlM_error hr
    rw [isSome_number_iff hcause, isPassable_child_iff (hfs.of_mem_list (ho.mem_iff.mp hn))]

theorem exists_walk_of_reaches (hfs : fs.HasFileNames)
    (h : ReflTransGen (Next fs ending) s ⟨[], found⟩) :
    ∀ path ∈ s.pending, ∃ p, Folder.Leads fs ⟨p, path⟩ ∧ ∃ files, fs.walk ending ⟨p, path⟩ = .ok files := by
  induction h using ReflTransGen.head_induction_on with
  | refl => simp
  | @head s s' hn _ ih =>
    obtain ⟨folder, pending, found, listing, order, rfl, hl, ho, hi, rfl⟩ := exists_of_next hfs hn
    refine List.forall_mem_cons.mpr ⟨⟨folder.place, hl, exists_walk_iff.mpr ⟨?_, ?_⟩⟩, ?_⟩
    · intro n hn
      exact exists_inspectAll_iff.mp ⟨listing, hi⟩ n (ho.mem_iff.mpr hn)
    · intro b hb
      have hm := (mem_folders_iff ho hi).mpr ⟨b.1, hb⟩
      have hlb := (leads_of_mem_folders hfs hl ho hi hm).1
      obtain ⟨p, hp, hw⟩ := ih b.2.path (List.mem_append_left _ (List.mem_reverse.mpr (List.mem_map_of_mem hm)))
      obtain rfl := Except.ok.inj (hlb.resolves.symm.trans hp.resolves)
      exact hw
    · intro path hp
      exact ih path (List.mem_append_right _ hp)

end Search

def Opens (fs : FileSystem) (l m : Location) : Prop :=
  ∃ name ∈ fs.list l, ∃ q, fs.enter ⟨l, linkLimit⟩ name = .ok q ∧ q.location = m ∧ fs.isDirectory m = true

theorem location_follow {links links' : ℕ} (h : fs.follow links l names = .ok p)
    (h' : fs.follow links' l names = .ok q) : p.location = q.location := by
  induction links generalizing links' l names with
  | zero =>
    rw [follow] at h
    cases ha : fs.advance l names with
    | error cause => rw [ha] at h; cases h
    | ok halt =>
      cases halt with
      | link directory target rest => rw [ha] at h; cases h
      | arrived m =>
        rw [ha] at h
        cases h
        cases links' <;> (rw [follow, ha] at h'; cases h'; rfl)
  | succ links ih =>
    rw [follow] at h
    cases ha : fs.advance l names with
    | error cause => rw [ha] at h; cases h
    | ok halt =>
      cases halt with
      | arrived m =>
        rw [ha] at h
        cases h
        cases links' <;> (rw [follow, ha] at h'; cases h'; rfl)
      | link directory target rest =>
        rw [ha] at h
        cases links' with
        | zero => rw [follow, ha] at h'; cases h'
        | succ links' =>
          rw [follow, ha] at h'
          exact ih h h'

theorem location_enter {links : ℕ} (h : fs.enter p name = .ok q) {r : Place}
    (h' : fs.enter ⟨p.location, links⟩ name = .ok r) : q.location = r.location := by
  obtain ⟨l, budget⟩ := p
  unfold enter at h h'
  split at h
  · cases h
  · next target ht =>
    rw [ht] at h'
    dsimp only [cross] at h h'
    split at h
    · cases h
    · split at h'
      · cases h'
      · exact location_follow h h'
  · next entry hne he =>
    cases h
    split at h'
    · cases h'
    · next target ht => exact absurd (he.symm.trans ht) (by simpa using hne target)
    · cases h'
      rfl

theorem exists_enter_of_inspect (h : fs.inspect ending folder name = .ok listing) :
    ∃ q, fs.enter folder.place name = .ok q := by
  unfold inspect at h
  dsimp only at h
  split at h
  · cases h
  · cases he : fs.enter folder.place name with
    | error cause => rw [he] at h; cases h
    | ok q => exact ⟨q, rfl⟩

theorem exists_walk_of_opens (hw : ∃ files, fs.walk ending folder = .ok files)
    (h : fs.Opens folder.place.location m) : ∃ below : Folder, below.place.location = m ∧
      fs.rank below.place < fs.rank folder.place ∧ ∃ files, fs.walk ending below = .ok files := by
  obtain ⟨name, hm, q', he', rfl, hd⟩ := h
  obtain ⟨hnames, hbelow⟩ := exists_walk_iff.mp hw
  obtain ⟨listing, hi⟩ := hnames name hm
  obtain ⟨q, hq⟩ := exists_enter_of_inspect hi
  have hsame : q'.location = q.location := location_enter (p := ⟨folder.place.location, linkLimit⟩) he' hq
  have hb : (name, Folder.mk q (Path.child folder.path name)) ∈ fs.foldersHere folder :=
    mem_foldersHere.mpr ⟨name, hm, folderHere?_eq_some.mpr ⟨rfl, rfl, hq, hsame ▸ hd⟩⟩
  exact ⟨_, hsame.symm, rank_lt_of_mem_foldersHere hb, hbelow _ hb⟩

theorem exists_walk_of_transGen (hw : ∃ files, fs.walk ending folder = .ok files)
    (h : TransGen fs.Opens folder.place.location m) : ∃ below : Folder, below.place.location = m ∧
      fs.rank below.place < fs.rank folder.place ∧ ∃ files, fs.walk ending below = .ok files := by
  induction h with
  | single h => exact exists_walk_of_opens hw h
  | tail _ h ih =>
    obtain ⟨b, rfl, hb, hwb⟩ := ih
    obtain ⟨c, hc, hcb, hwc⟩ := exists_walk_of_opens hwb h
    exact ⟨c, hc, hcb.trans hb, hwc⟩

theorem walk_ne_ok_of_cycle (h : TransGen fs.Opens l l) (hl : folder.place.location = l) :
    ¬ ∃ files, fs.walk ending folder = .ok files := by
  induction hr : fs.rank folder.place using Nat.strongRecOn generalizing folder with
  | _ rank ih =>
    intro hw
    obtain ⟨below, hb, hlt, hwb⟩ := exists_walk_of_transGen hw (hl.symm ▸ h)
    exact ih _ (hr ▸ hlt) (hb.trans hl) rfl hwb

theorem walk_ne_ok_of_reaches (hr : ReflTransGen fs.Opens folder.place.location l) (h : TransGen fs.Opens l l) :
    ¬ ∃ files, fs.walk ending folder = .ok files := by
  intro hw
  rcases reflTransGen_iff_eq_or_transGen.mp hr with rfl | hr
  · exact walk_ne_ok_of_cycle h rfl hw
  · obtain ⟨below, hb, -, hwb⟩ := exists_walk_of_transGen hw hr
    exact walk_ne_ok_of_cycle h hb hwb

theorem search_ends (hfs : fs.HasFileNames) (ending root : Text) :
    (WellFounded fun s' s => Search.Next fs ending s s') ∧
    (∀ s : Search, s.pending ≠ [] → ∃ result, Search.Turn fs ending s result) ∧
    (∀ s f, ReflTransGen (Search.Next fs ending) ⟨[root], []⟩ s → Search.Turn fs ending s (.error f) →
      (f.cause.number.isSome = true ↔ IsPassable root)) ∧
    Search.Ends fs ending ⟨[root], []⟩ ((fs.find ending root).map (·.map Found.path)) ∧
    ∀ p l, fs.resolve root = .ok p → ReflTransGen fs.Opens p.location l → TransGen fs.Opens l l →
      (∃ f, fs.find ending root = .error f) ∧
      ∀ found, ¬ ReflTransGen (Search.Next fs ending) ⟨[root], []⟩ ⟨[], found⟩ := by
  refine ⟨Search.wellFounded_next hfs ending, fun s => Search.exists_turn,
    fun s f hs ht => Search.isSome_number_of_turn hfs hs ht,
    Search.ends_find hfs ending root, fun p l hp hr hc => ⟨?_, fun found hs => ?_⟩⟩
  · cases hf : fs.find ending root with
    | error f => exact ⟨f, rfl⟩
    | ok files =>
      obtain ⟨q, -, hq, hd, -⟩ := exists_lists_of_find hf
      obtain rfl := Except.ok.inj (hp.symm.trans hq)
      have hl : Folder.Leads fs ⟨p, root⟩ := ⟨hp, hd⟩
      exact absurd ⟨files, (find_of_leads hl).symm.trans hf⟩ (walk_ne_ok_of_reaches hr hc)
  · obtain ⟨q, hl, hw⟩ := Search.exists_walk_of_reaches hfs hs root List.mem_cons_self
    obtain rfl := Except.ok.inj (hp.symm.trans hl.resolves)
    exact walk_ne_ok_of_reaches hr hc hw

def linkUp : FileSystem :=
  ((FileSystem.empty ["w"]).write ["up", "a", "w"] (.link "..")).write ["b.css", "w"] (.file [] 0)

theorem search_ends_linkUp :
    linkUp.HasFileNames ∧ linkUp.resolve "." = .ok ⟨["w"], linkLimit⟩ ∧
    TransGen linkUp.Opens ["w"] ["w"] ∧
    (∃ f, linkUp.find ".css" "." = .error f) ∧
    ∀ found, ¬ ReflTransGen (Search.Next linkUp ".css") ⟨["."], []⟩ ⟨[], found⟩ := by
  have hfs : linkUp.HasFileNames := hasFileNames_of_entries (by decide +kernel)
  have hp : linkUp.resolve "." = .ok ⟨["w"], linkLimit⟩ := by decide +kernel
  have hdown : linkUp.Opens ["w"] ["a", "w"] :=
    ⟨"a", by decide +kernel, ⟨["a", "w"], linkLimit⟩, by decide +kernel, rfl, by decide +kernel⟩
  have hup : linkUp.Opens ["a", "w"] ["w"] :=
    ⟨"up", by decide +kernel, ⟨["w"], 39⟩, by decide +kernel, rfl, by decide +kernel⟩
  have hcycle : TransGen linkUp.Opens ["w"] ["w"] := .tail (.single hdown) hup
  have hends := (search_ends hfs ".css" ".").2.2.2.2 _ _ hp .refl hcycle
  exact ⟨hfs, hp, hcycle, hends⟩

end ColorCensus.FileSystem
