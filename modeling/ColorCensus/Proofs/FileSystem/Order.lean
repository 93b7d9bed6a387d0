import ColorCensus.Proofs.FileSystem.Contents
import ColorCensus.Proofs.FileSystem.Descent
import Mathlib.Data.List.Perm.Basic

namespace ColorCensus

section

variable {α β : Type} [BEq α] [LawfulBEq α] {entries entries' : List (α × β)} {k : α} {b : β}

theorem lookup_eq_some_iff_mem (hn : (entries.map Prod.fst).Nodup) :
    entries.lookup k = some b ↔ (k, b) ∈ entries := by
  rw [List.lookup_eq_some_iff]
  constructor
  · rintro ⟨before, after, rfl, -⟩
    exact List.mem_append_right before List.mem_cons_self
  · intro hm
    obtain ⟨before, after, rfl⟩ := List.append_of_mem hm
    refine ⟨before, after, rfl, fun e he => ?_⟩
    rw [List.map_append, List.map_cons, List.nodup_append] at hn
    exact bne_iff_ne.mpr (hn.2.2 e.1 (List.mem_map_of_mem he) k List.mem_cons_self).symm

theorem lookup_eq_of_perm (h : entries.Perm entries') (hn : (entries.map Prod.fst).Nodup) :
    entries.lookup k = entries'.lookup k := by
  have hn' : (entries'.map Prod.fst).Nodup := (h.map Prod.fst).nodup_iff.mp hn
  apply Option.ext
  intro b
  rw [lookup_eq_some_iff_mem hn, lookup_eq_some_iff_mem hn', h.mem_iff]

end

namespace FileSystem

open Text

structure Relists (fs fs' : FileSystem) : Prop where
  entries : fs.entries.Perm fs'.entries
  current : fs.current = fs'.current

variable {fs fs' : FileSystem} {p q : Place} {ending : Text} {folder : Folder} {names trail : List Text}

namespace Relists

theorem symm (h : Relists fs fs') : Relists fs' fs := ⟨h.entries.symm, h.current.symm⟩

theorem lookup? (h : Relists fs fs') (location : Location) : fs.lookup? location = fs'.lookup? location := by
  cases location with
  | nil => rfl
  | cons name parent => exact lookup_eq_of_perm h.entries fs.distinct

theorem agrees (h : Relists fs fs') : AgreesExcept (fun _ => False) fs fs' where
  current := h.current
  lookup := fun l => .inl (h.lookup? l)

theorem isDirectory (h : Relists fs fs') (location : Location) :
    fs.isDirectory location = fs'.isDirectory location := h.agrees.isDirectory location

theorem content? (h : Relists fs fs') (location : Location) :
    fs.content? location = fs'.content? location := by
  rw [FileSystem.content?, FileSystem.content?, h.lookup?]

theorem list (h : Relists fs fs') (location : Location) :
    (fs.list location).Perm (fs'.list location) := h.entries.filterMap _

theorem resolve (h : Relists fs fs') (path : Text) : fs.resolve path = fs'.resolve path :=
  h.agrees.resolve path

theorem enter (h : Relists fs fs') (p : Place) (name : Text) : fs.enter p name = fs'.enter p name :=
  h.agrees.enter p name

theorem inspect (h : Relists fs fs') (ending : Text) (folder : Folder) (name : Text) :
    fs.inspect ending folder name = fs'.inspect ending folder name := by
  simp only [FileSystem.inspect, h.enter, h.content?]

theorem mem_foldersHere (h : Relists fs fs') {b : Text × Folder} :
    b ∈ fs.foldersHere folder ↔ b ∈ fs'.foldersHere folder := by
  rw [FileSystem.mem_foldersHere, FileSystem.mem_foldersHere]
  simp only [folderHere?, h.enter, h.isDirectory, (h.list _).mem_iff]

end Relists

theorem exists_inspectAll_iff : (∃ listing, fs.inspectAll ending folder names = .ok listing) ↔
    ∀ name ∈ names, ∃ listing, fs.inspect ending folder name = .ok listing := by
  induction names with
  | nil => exact ⟨fun _ => by simp, fun _ => ⟨_, rfl⟩⟩
  | cons name names ih =>
    rw [List.forall_mem_cons, ← ih]
    constructor
    · rintro ⟨listing, h⟩
      obtain ⟨first, hf, h⟩ := bind_eq_ok.mp h
      obtain ⟨rest, hr, -⟩ := bind_eq_ok.mp h
      exact ⟨⟨first, hf⟩, rest, hr⟩
    · rintro ⟨⟨first, hf⟩, rest, hr⟩
      exact ⟨first.append rest, bind_eq_ok.mpr ⟨first, hf, bind_eq_ok.mpr ⟨rest, hr, rfl⟩⟩⟩

theorem exists_walk_iff : (∃ files, fs.walk ending folder = .ok files) ↔
    (∀ name ∈ fs.list folder.place.location, ∃ listing, fs.inspect ending folder name = .ok listing) ∧
      ∀ b ∈ fs.foldersHere folder, ∃ files, fs.walk ending b.2 = .ok files := by
  have hbelow : ∀ {listing}, fs.contents ending folder = .ok listing →
      ((∃ found, listing.folders.reverse.mapM (fs.walk ending) = .ok found) ↔
        ∀ b ∈ fs.foldersHere folder, ∃ files, fs.walk ending b.2 = .ok files) := by
    intro listing hc
    rw [(inspectAll_ok hc).2, ← List.map_reverse, exists_mapM_iff, List.forall_mem_map]
    rfl
  rw [← exists_inspectAll_iff, walk_eq]
  constructor
  · rintro ⟨files, h⟩
    obtain ⟨listing, hc, h⟩ := bind_eq_ok.mp h
    obtain ⟨found, hm, -⟩ := map_eq_ok.mp h
    exact ⟨⟨listing, hc⟩, (hbelow hc).mp ⟨found, hm⟩⟩
  · rintro ⟨⟨listing, hc⟩, hb⟩
    obtain ⟨found, hm⟩ := (hbelow hc).mpr hb
    exact ⟨_, bind_eq_ok.mpr ⟨listing, hc, map_eq_ok.mpr ⟨found, hm, rfl⟩⟩⟩

namespace Relists

theorem exists_walk (h : Relists fs fs') (hw : ∃ files, fs.walk ending folder = .ok files) :
    ∃ files, fs'.walk ending folder = .ok files := by
  -- as for what a walk finds, the induction is on its measure
  induction hr : fs.rank folder.place using Nat.strongRecOn generalizing folder with
  | _ rank ih =>
    obtain ⟨hnames, hbelow⟩ := exists_walk_iff.mp hw
    refine exists_walk_iff.mpr ⟨?_, ?_⟩
    · intro name hn
      rw [← h.inspect]
      exact hnames name ((h.list _).mem_iff.mpr hn)
    · intro b hb
      have hb' := h.mem_foldersHere.mpr hb
      exact ih _ (hr ▸ rank_lt_of_mem_foldersHere hb') (hbelow b hb') rfl

theorem descends (h : Relists fs fs') (hd : Descends fs p trail q) : Descends fs' p trail q := by
  induction hd with
  | here p => exact .here p
  | down hm he _ ih => exact .down ((h.list _).mem_iff.mp hm) (h.enter _ _ ▸ he) ih

theorem isSheet {content : List UInt8} (h : Relists fs fs') (hs : IsSheet fs ending p trail content) :
    IsSheet fs' ending p trail content := by
  obtain ⟨hn, q, hd, hq, hc⟩ := hs
  exact ⟨hn, q, h.descends hd, h.isDirectory _ ▸ hq, h.content? _ ▸ hc⟩

theorem lists_perm {files files' : List Found} {sheets sheets' : List Sheet} (h : Relists fs fs')
    (hl : Lists fs ending folder files sheets) (hl' : Lists fs' ending folder files' sheets') :
    files.Perm files' := by
  rw [hl.files, hl'.files]
  apply List.Perm.map
  rw [List.perm_ext_iff_of_nodup hl.distinct.of_map hl'.distinct.of_map]
  rintro ⟨trail, content⟩
  rw [hl.complete, hl'.complete]
  exact ⟨h.isSheet, h.symm.isSheet⟩

theorem find_perm {path : Text} {files : List Found} (h : Relists fs fs')
    (hf : fs.find ending path = .ok files) :
    ∃ files', fs'.find ending path = .ok files' ∧ files.Perm files' := by
  obtain ⟨start, sheets, hs, hd, hl⟩ := exists_lists_of_find hf
  have hw : ∀ {g : FileSystem}, g.resolve path = .ok start → g.isDirectory start.location = true →
      g.find ending path = g.walk ending ⟨start, path⟩ := by
    intro g hg hd
    rw [FileSystem.find, hg]
    exact if_pos hd
  have hs' := (h.resolve path).symm.trans hs
  have hd' := (h.isDirectory _).symm.trans hd
  obtain ⟨files', hf'⟩ := h.exists_walk ⟨files, (hw hs hd).symm.trans hf⟩
  obtain ⟨sheets', hl'⟩ := exists_lists_of_walk hf'
  exact ⟨files', (hw hs' hd').trans hf', h.lists_perm hl hl'⟩

end Relists

end FileSystem

end ColorCensus
