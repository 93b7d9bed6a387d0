import ColorCensus.FileSystem.Change
import ColorCensus.Proofs.FileSystem.RealPath
import Mathlib.Data.List.Basic

namespace ColorCensus.FileSystem

open Text

structure AgreesExcept (P : Location → Prop) (fs fs' : FileSystem) : Prop where
  current : fs.current = fs'.current
  lookup : ∀ l, fs.lookup? l = fs'.lookup? l ∨ P l ∧ ∃ content content' modified,
    fs.lookup? l = some (.file content modified) ∧ fs'.lookup? l = some (.file content' modified)

variable {P : Location → Prop} {fs fs' : FileSystem} {location : Location} {target : Text}
  {content : List UInt8} {modified : Int}

namespace AgreesExcept

theorem isDirectory (h : AgreesExcept P fs fs') (location : Location) :
    fs.isDirectory location = fs'.isDirectory location := by
  rw [FileSystem.isDirectory, FileSystem.isDirectory]
  rcases h.lookup location with hl | ⟨-, content, content', modified, hl, hl'⟩
  · rw [hl]
  · rw [hl, hl']
    rfl

theorem link_iff (h : AgreesExcept P fs fs') :
    fs.lookup? location = some (.link target) ↔ fs'.lookup? location = some (.link target) := by
  rcases h.lookup location with hl | ⟨-, content, content', modified, hl, hl'⟩
  · rw [hl]
  · rw [hl, hl']
    simp

theorem exists_file (h : AgreesExcept P fs fs')
    (hl : fs.lookup? location = some (.file content modified)) :
    ∃ content', fs'.lookup? location = some (.file content' modified) ∧
      (content' = content ∨ P location) := by
  rcases h.lookup location with he | ⟨hp, before, after, time, hb, ha⟩
  · exact ⟨content, he ▸ hl, .inl rfl⟩
  · cases hb.symm.trans hl
    exact ⟨after, ha, .inr hp⟩

theorem advance (h : AgreesExcept P fs fs') (location : Location) (names : List Text) :
    fs.advance location names = fs'.advance location names := by
  induction names generalizing location with
  | nil => rfl
  | cons name names ih =>
    rw [FileSystem.advance, FileSystem.advance, h.isDirectory]
    rcases h.lookup (name :: location) with hl | ⟨-, content, content', modified, hl, hl'⟩
    · simp only [hl, ih]
    · simp only [hl, hl', ih]

theorem follow (h : AgreesExcept P fs fs') (links : ℕ) (location : Location) (names : List Text) :
    fs.follow links location names = fs'.follow links location names := by
  induction links generalizing location names with
  | zero => simp only [FileSystem.follow, h.advance]
  | succ links ih => simp only [FileSystem.follow, h.advance, ih]

theorem resolve (h : AgreesExcept P fs fs') (path : Text) : fs.resolve path = fs'.resolve path := by
  simp only [FileSystem.resolve, h.current, h.follow]

theorem enter (h : AgreesExcept P fs fs') (p : Place) (name : Text) :
    fs.enter p name = fs'.enter p name := by
  rw [FileSystem.enter, FileSystem.enter]
  rcases h.lookup (name :: p.location) with hl | ⟨-, content, content', modified, hl, hl'⟩
  · simp only [hl, cross, h.follow]
  · simp only [hl, hl']

theorem realPathFrom (h : AgreesExcept P fs fs') (active : List Location) (known : Known)
    (location : Location) (names : List Text) :
    fs.realPathFrom active known location names = fs'.realPathFrom active known location names := by
  -- the walk only asks of an entry whether it is a link, and then where to
  fun_induction FileSystem.realPathFrom fs active known location names with
  | case1 active known location => rw [FileSystem.realPathFrom]
  | case2 active known location name rest hn ih =>
    rw [FileSystem.realPathFrom, if_pos hn]
    exact ih
  | case3 active known location name rest hn cause hc =>
    rw [FileSystem.realPathFrom, if_neg hn, hc]
  | case4 active known location name rest hn hc target ht l hlook ih =>
    rw [FileSystem.realPathFrom, if_neg hn, hc]
    dsimp only
    split
    · simp only [hlook]
      exact ih
    · next hnot => exact absurd (h.link_iff.mp ht) (hnot target)
  | case5 active known location name rest hn hc target ht hlook ha =>
    rw [FileSystem.realPathFrom, if_neg hn, hc]
    dsimp only
    split
    · simp only [hlook, dif_pos ha]
    · next hnot => exact absurd (h.link_iff.mp ht) (hnot target)
  | case6 active known location name rest hn hc target ht hlook ha cause known' hp ih =>
    rw [FileSystem.realPathFrom, if_neg hn, hc]
    dsimp only
    split
    · next target' ht' =>
      cases ht'.symm.trans (h.link_iff.mp ht)
      rw [ih] at hp
      simp only [hlook, dif_neg ha, hp]
    · next hnot => exact absurd (h.link_iff.mp ht) (hnot target)
  | case7 active known location name rest hn hc target ht hlook ha p known' hp ih =>
    rw [FileSystem.realPathFrom, if_neg hn, hc]
    dsimp only
    split
    · next target' ht' =>
      cases ht'.symm.trans (h.link_iff.mp ht)
      rw [ih] at hp
      simp only [hlook, dif_neg ha, hp]
    · next hnot => exact absurd (h.link_iff.mp ht) (hnot target)
  | case8 active known location name rest hn hc target ht hlook ha l known' hp ih' ih =>
    rw [FileSystem.realPathFrom, if_neg hn, hc]
    dsimp only
    split
    · next target' ht' =>
      cases ht'.symm.trans (h.link_iff.mp ht)
      rw [ih'] at hp
      simp only [hlook, dif_neg ha, hp]
      exact ih
    · next hnot => exact absurd (h.link_iff.mp ht) (hnot target)
  | case9 active known location name rest hn hc ht ih =>
    rw [FileSystem.realPathFrom, if_neg hn, hc]
    dsimp only
    split
    · next target' ht' => exact absurd (h.link_iff.mpr ht') (ht target')
    · exact ih

theorem realPath (h : AgreesExcept P fs fs') (location : Location) (path : Text) :
    fs.realPath location path = fs'.realPath location path := by
  simp only [FileSystem.realPath, realPathAlong, h.realPathFrom, h.follow]

theorem probe (h : AgreesExcept P fs fs') (path : AbsolutePath) :
    fs'.probe path = fs.probe path ∨ ∃ p content content' modified,
      fs.follow linkLimit [] path.location.reverse = .ok p ∧ P p.location ∧
        fs.probe path = .ok (some (.file content modified)) ∧
        fs'.probe path = .ok (some (.file content' modified)) := by
  rw [FileSystem.probe, FileSystem.probe, h.follow]
  split
  · exact .inl rfl
  · split
    · next p hp =>
      rcases h.lookup p.location with hl | ⟨hp', content, content', modified, hl, hl'⟩
      · exact .inl (congrArg Except.ok hl.symm)
      · exact .inr ⟨p, content, content', modified, hp, hp', congrArg Except.ok hl, congrArg Except.ok hl'⟩
    · exact .inl rfl
    · exact .inl rfl

end AgreesExcept

theorem agreesExcept_insert (hl : fs.lookup? location = some (.file content modified)) (hp : P location)
    (content' : List UInt8) :
    AgreesExcept P fs (fs.insert location (.file content' modified)) ∧
      (fs.insert location (.file content' modified)).lookup? location =
        some (.file content' modified) := by
  cases location with
  | nil => cases hl
  | cons name parent =>
    have hfile : fs.isDirectory (name :: parent) = false := by
      rw [FileSystem.isDirectory, hl]
      rfl
    have hc : fs.canHold name parent (.file content' modified) = true := by
      rw [canHold, isDirectory_parent hl, hfile]
      rfl
    have hself := (lookup?_insert hc (name :: parent)).trans (if_pos rfl)
    refine ⟨⟨?_, ?_⟩, hself⟩
    · rw [insert, dif_pos hc]
    · intro l
      by_cases h : l = name :: parent
      · subst h
        exact .inr ⟨hp, content, content', modified, hl, hself⟩
      · exact .inl ((lookup?_insert hc l).trans (if_neg h)).symm

end ColorCensus.FileSystem
