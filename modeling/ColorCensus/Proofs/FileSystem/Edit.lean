import ColorCensus.FileSystem.Edit
import ColorCensus.Proofs.Outcome

namespace ColorCensus.FileSystem

open Text

variable {fs fs' fs'' : FileSystem} {l k : Location} {entry : Entry} {path target : Text}

theorem lookup?_insert_cases {x : Entry} (h : (fs.insert l entry).lookup? k = some x) :
    fs.lookup? k = some x ∨ k = l ∧ x = entry := by
  cases l with
  | nil => exact .inl h
  | cons name parent =>
    by_cases hc : fs.canHold name parent entry = true
    · rw [lookup?_insert hc] at h
      split at h
      · next hk => exact .inr ⟨hk, (Option.some.inj h).symm⟩
      · exact .inl h
    · rw [insert, dif_neg hc] at h
      exact .inl h

def FilesWithin (fs' fs : FileSystem) : Prop :=
  ∀ l content modified, fs'.lookup? l = some (.file content modified) →
    fs.lookup? l = some (.file content modified)

theorem filesWithin_refl (fs : FileSystem) : FilesWithin fs fs := fun _ _ _ h => h

theorem FilesWithin.trans (h : FilesWithin fs'' fs') (h' : FilesWithin fs' fs) : FilesWithin fs'' fs :=
  fun l content modified hl => h' l content modified (h l content modified hl)

theorem filesWithin_insert (he : ∀ content modified, entry ≠ .file content modified) :
    FilesWithin (fs.insert l entry) fs := by
  intro k content modified h
  rcases lookup?_insert_cases h with h | ⟨-, hx⟩
  · exact h
  · exact absurd hx.symm (he content modified)

theorem filesWithin_erase : FilesWithin (fs.erase l) fs := by
  intro k content modified h
  cases k with
  | nil => exact h
  | cons name parent =>
    change (fs.entries.filter fun e => !l.within e.1).lookup (name :: parent) = _ at h
    rw [lookup_filter_within] at h
    split at h
    · cases h
    · exact h

theorem filesWithin_makeDirectory (h : fs.makeDirectory path = .ok fs') : FilesWithin fs' fs := by
  obtain ⟨s, -, hs⟩ := bind_eq_ok.mp h
  split at hs
  · cases hs
  · cases hs
    exact filesWithin_insert (by simp)

theorem filesWithin_makeLink (h : fs.makeLink target path = .ok fs') : FilesWithin fs' fs := by
  obtain ⟨-, -, h⟩ := bind_eq_ok.mp h
  obtain ⟨s, -, hs⟩ := bind_eq_ok.mp h
  split at hs
  · cases hs
  · split at hs
    · cases hs
    · cases hs
      exact filesWithin_insert (by simp)

theorem filesWithin_remove (h : fs.remove path = .ok fs') : FilesWithin fs' fs := by
  obtain ⟨s, -, hs⟩ := bind_eq_ok.mp h
  split at hs
  · cases hs
  · cases hs
  · split at hs
    · cases hs
    · cases hs
      exact filesWithin_erase

theorem filesWithin_provideOne (fs : FileSystem) (path : Text) :
    FilesWithin (fs.provideOne path).files fs := by
  unfold provideOne
  split
  · split <;> exact filesWithin_refl fs
  · cases hm : fs.makeDirectory path with
    | error cause => exact filesWithin_refl fs
    | ok fs' => exact filesWithin_makeDirectory hm

theorem filesWithin_provide (fs : FileSystem) (root : Text) (steps : List Text) :
    FilesWithin (fs.provide root steps).files fs := by
  induction steps with
  | nil => exact filesWithin_provideOne fs _
  | cons step above ih =>
    unfold provide
    dsimp only
    split
    · split
      · exact ih
      · exact (filesWithin_provideOne _ _).trans ih
    · exact filesWithin_provideOne fs _

theorem lookup?_writeFile_cases {content : List UInt8} {modified : Int}
    (h : fs.writeFile path entry = .ok fs') (hk : fs'.lookup? k = some (.file content modified)) :
    fs.lookup? k = some (.file content modified) ∨
      ((namesOf path).bind fun names => fs.fileAlong linkLimit (fs.current.origin names) names) =
        .ok k ∧ entry = .file content modified := by
  obtain ⟨names, hn, hw⟩ := bind_eq_ok.mp h
  obtain ⟨l, hl, rfl⟩ := map_eq_ok.mp hw
  rcases lookup?_insert_cases hk with hk | ⟨rfl, he⟩
  · exact .inl hk
  · exact .inr ⟨bind_eq_ok.mpr ⟨names, hn, hl⟩, he.symm⟩

def landing (fs : FileSystem) (path : Text) : Option Location :=
  let ready := fs.provide (Path.root path) (Path.steps path).reverse.tail
  match ready.fault with
  | some _ => none
  | none =>
    ((namesOf (Path.normal path)).bind fun names =>
      ready.files.fileAlong linkLimit (ready.files.current.origin names) names).toOption

theorem lookup?_make_cases {content : List UInt8} {modified : Int}
    (h : (fs.make path entry).files.lookup? k = some (.file content modified)) :
    fs.lookup? k = some (.file content modified) ∨
      fs.landing path = some k ∧ entry = .file content modified := by
  have hprovide := filesWithin_provide fs (Path.root path) (Path.steps path).reverse.tail
  unfold make at h
  unfold landing
  dsimp only at h ⊢
  split at h
  · exact .inl (hprovide k content modified h)
  · exact .inl ((filesWithin_provideOne _ _).trans hprovide k content modified h)
  · next target hf =>
    cases hm : (fs.provide (Path.root path) (Path.steps path).reverse.tail).files.makeLink target
        (Path.normal path) with
    | error cause =>
      rw [hm] at h
      exact .inl (hprovide k content modified h)
    | ok fs' =>
      rw [hm] at h
      exact .inl ((filesWithin_makeLink hm).trans hprovide k content modified h)
  · next content' modified' hf =>
    rw [hf]
    cases hw : (fs.provide (Path.root path) (Path.steps path).reverse.tail).files.writeFile
        (Path.normal path) (.file content' modified') with
    | error cause =>
      rw [hw] at h
      exact .inl (hprovide k content modified h)
    | ok fs' =>
      rw [hw] at h
      rcases lookup?_writeFile_cases hw h with h | ⟨hl, he⟩
      · exact .inl (hprovide k content modified h)
      · refine .inr ⟨?_, he⟩
        rw [hl]
        rfl

end ColorCensus.FileSystem
