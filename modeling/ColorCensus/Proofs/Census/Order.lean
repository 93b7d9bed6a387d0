import ColorCensus.Proofs.Census
import ColorCensus.Proofs.FileSystem.Order
import ColorCensus.Proofs.Report.Ranking

namespace ColorCensus

open Text

namespace Tally

variable {t u : Tally} {c : Text} {n : ℕ}

theorem IsLawful.mem_counts_iff (h : t.IsLawful) : (c, n) ∈ t.counts ↔ 0 < n ∧ t.get c = n := by
  constructor
  · intro hm
    refine ⟨h.positive _ hm, ?_⟩
    rw [get, (lookup_eq_some_iff_mem h.distinct).mpr hm, Option.getD_some]
  · rintro ⟨hpos, rfl⟩
    obtain ⟨⟨d, m⟩, hm, rfl⟩ := List.mem_map.mp (h.mem_keys_iff.mpr hpos)
    dsimp only at hpos ⊢
    rwa [get, (lookup_eq_some_iff_mem h.distinct).mpr hm, Option.getD_some]

theorem IsLawful.counts_perm (ht : t.IsLawful) (hu : u.IsLawful) (h : ∀ c, t.get c = u.get c) :
    t.counts.Perm u.counts := by
  rw [List.perm_ext_iff_of_nodup ht.distinct.of_map hu.distinct.of_map]
  rintro ⟨c, n⟩
  rw [ht.mem_counts_iff, hu.mem_counts_iff, h]

end Tally

namespace Report

variable {r r' : Report}

structure Agrees (r r' : Report) : Prop where
  fileCount : r.fileCount = r'.fileCount
  count : ∀ c, r.count c = r'.count c
  rows : r.rows.map Prod.snd = r'.rows.map Prod.snd

theorem rows_map_snd_eq (h : r.counts.Perm r'.counts) :
    r.rows.map Prod.snd = r'.rows.map Prod.snd := by
  have hperm : (r.rows.map Prod.snd).Perm (r'.rows.map Prod.snd) :=
    ((r.rows_perm.trans h).trans r'.rows_perm.symm).map _
  have hdown : ∀ x : Report, (x.rows.map Prod.snd).Pairwise (fun a b : ℤ => b ≤ a) :=
    fun x => List.pairwise_map.mpr x.pairwise_rows
  exact hperm.eq_of_pairwise (fun a b _ _ hab hba => le_antisymm hba hab) (hdown r) (hdown r')

theorem agrees_ofTally {colors colors' : List Text} (h : colors.Perm colors') (n : ℤ) :
    Agrees (ofTally n (Tally.empty.addAll colors)) (ofTally n (Tally.empty.addAll colors')) where
  fileCount := rfl
  count := by
    intro c
    rw [count_ofTally, count_ofTally, Tally.get_addAll, Tally.get_addAll, h.count_eq]
  rows := by
    apply rows_map_snd_eq
    apply List.Perm.map
    apply (Tally.isLawful_empty.addAll colors).counts_perm (Tally.isLawful_empty.addAll colors')
    intro c
    rw [Tally.get_addAll, Tally.get_addAll, h.count_eq]

end Report

namespace Census

open Css FileSystem

variable {fs fs' : FileSystem}

theorem take_of_relists (h : Relists fs fs') {properties : List Text} {root : Text} {r : Report}
    (hr : (take fs properties root).result = .ok r) :
    ∃ r', (take fs' properties root).result = .ok r' ∧ r.Agrees r' := by
  obtain ⟨files, hf, hall, rfl⟩ := take_eq_ok.mp hr
  obtain ⟨files', hf', hp⟩ := h.find_perm hf
  have hall' : ∀ f ∈ files', IsReadable f.content := fun f hm => hall f (hp.mem_iff.mpr hm)
  refine ⟨_, take_eq_ok.mpr ⟨files', hf', hall', rfl⟩, ?_⟩
  rw [← hp.length_eq]
  exact Report.agrees_ofTally (hp.flatMap_right _) _

theorem take_order_independent (h : Relists fs fs') (properties : List Text) (root : Text) :
    ((∃ f f', (take fs properties root).result = .error f ∧
        (take fs' properties root).result = .error f') ∨
      ∃ r r', (take fs properties root).result = .ok r ∧
        (take fs' properties root).result = .ok r' ∧ r.Agrees r') ∧
    ((∃ r, (take fs properties root).result = .ok r) ↔
      ∃ files, fs.find stylesheetEnding root = .ok files ∧ ∀ f ∈ files, IsReadable f.content) := by
  constructor
  · cases hr : (take fs properties root).result with
    | ok r =>
      obtain ⟨r', hr', ha⟩ := take_of_relists h hr
      exact .inr ⟨r, r', rfl, hr', ha⟩
    | error f =>
      cases hr' : (take fs' properties root).result with
      | ok r' =>
        obtain ⟨r, h', -⟩ := take_of_relists h.symm hr'
        rw [hr] at h'
        cases h'
      | error f' => exact .inl ⟨f, f', rfl, rfl⟩
  · constructor
    · rintro ⟨r, hr⟩
      obtain ⟨files, hf, hall, -⟩ := take_eq_ok.mp hr
      exact ⟨files, hf, hall⟩
    · rintro ⟨files, hf, hall⟩
      exact ⟨_, take_eq_ok.mpr ⟨files, hf, hall, rfl⟩⟩

def redSheet : Entry := .file (Utf8.encode "a\x7bcolor:red\x7d") 0

def blueSheet : Entry := .file (Utf8.encode "a\x7bcolor:blue\x7d") 0

def redFirst : FileSystem :=
  ((FileSystem.empty ["w"]).write ["a.css", "w"] redSheet).write ["b.css", "w"] blueSheet

def blueFirst : FileSystem :=
  ((FileSystem.empty ["w"]).write ["b.css", "w"] blueSheet).write ["a.css", "w"] redSheet

theorem take_order_independent_redFirst :
    Relists redFirst blueFirst ∧
      (take redFirst ["color"] ".").result =
        .ok ⟨2, [("rgb(255, 0, 0)", 1), ("rgb(0, 0, 255)", 1)]⟩ ∧
      (take blueFirst ["color"] ".").result =
        .ok ⟨2, [("rgb(0, 0, 255)", 1), ("rgb(255, 0, 0)", 1)]⟩ ∧
      Report.Agrees ⟨2, [("rgb(255, 0, 0)", 1), ("rgb(0, 0, 255)", 1)]⟩
        ⟨2, [("rgb(0, 0, 255)", 1), ("rgb(255, 0, 0)", 1)]⟩ := by
  have h : Relists redFirst blueFirst := ⟨by decide +kernel, by decide +kernel⟩
  have hr : (take redFirst ["color"] ".").result =
      .ok ⟨2, [("rgb(255, 0, 0)", 1), ("rgb(0, 0, 255)", 1)]⟩ := by decide +kernel
  have hb : (take blueFirst ["color"] ".").result =
      .ok ⟨2, [("rgb(0, 0, 255)", 1), ("rgb(255, 0, 0)", 1)]⟩ := by decide +kernel
  refine ⟨h, hr, hb, ?_⟩
  rcases (take_order_independent h ["color"] ".").1 with ⟨f, f', hf, -⟩ | ⟨r, r', hr', hb', ha⟩
  · cases hr.symm.trans hf
  · cases hr.symm.trans hr'
    cases hb.symm.trans hb'
    exact ha

end Census

end ColorCensus
