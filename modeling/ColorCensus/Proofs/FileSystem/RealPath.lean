import ColorCensus.FileSystem.RealPath

namespace ColorCensus.FileSystem

open Text

variable {fs : FileSystem} {location : Location} {name : Text} {names : List Text}

def IsSpecial (name : Text) : Prop := name = [] ∨ name = Path.here ∨ name = Path.above

def RealPath.Satisfies (P : Location → Prop) (Q : AbsolutePath → Prop) (R : Prop) : RealPath → Prop
  | found l => P l
  | circular p => Q p
  | refused _ => R

structure Upholds (fs : FileSystem) (N : Text → Prop) (P : Location → Prop) (Q : AbsolutePath → Prop) (R : Prop) :
    Prop where
  target : ∀ l target, fs.lookup? l = some (.link target) → ∀ name ∈ Path.names target, N name
  step : ∀ l name, IsSpecial name → P l → P (l.step name)
  origin : ∀ l names, P l → P (Location.origin l names)
  down : ∀ l name, ¬ IsSpecial name → N name → (∀ target, fs.lookup? (name :: l) ≠ some (.link target)) →
    P l → P (name :: l)
  circle : ∀ l name rest, ¬ IsSpecial name → N name → (∀ n ∈ rest, N n) → P l →
    Q (resume (.ofLocation (name :: l)) rest)
  resume : ∀ p rest, (∀ n ∈ rest, N n) → Q p → Q (resume p rest)
  refused : ∀ l name, N name → P l → refusal? (Location.text (name :: l)) ≠ none → R

section

variable {N : Text → Prop} {P : Location → Prop} {Q : AbsolutePath → Prop} {R : Prop} (h : fs.Upholds N P Q R)

include h

theorem Upholds.satisfiesFrom (active : List Location) (known : Known) (location : Location) (names : List Text)
    (hnames : ∀ name ∈ names, N name) (hl : P location) (hk : ∀ e ∈ known, P e.2) :
    (fs.realPathFrom active known location names).1.Satisfies P Q R ∧
      ∀ e ∈ (fs.realPathFrom active known location names).2, P e.2 := by
  fun_induction realPathFrom fs active known location names with
  | case1 active known location => exact ⟨hl, hk⟩
  | case2 active known location name rest hn ih =>
    exact ih (List.forall_mem_cons.mp hnames).2 (h.step location name hn hl) hk
  | case3 active known location name rest hn cause hc =>
    exact ⟨h.refused location name (List.forall_mem_cons.mp hnames).1 hl (by simp [hc]), hk⟩
  | case4 active known location name rest hn hc target ht l hlook ih =>
    obtain ⟨l₁, l₂, hknown, -⟩ := List.lookup_eq_some_iff.mp hlook
    have hm : (name :: location, l) ∈ known := hknown ▸ List.mem_append_right l₁ List.mem_cons_self
    exact ih (List.forall_mem_cons.mp hnames).2 (hk _ hm) hk
  | case5 active known location name rest hn hc target ht hlook ha =>
    obtain ⟨hname, hrest⟩ := List.forall_mem_cons.mp hnames
    exact ⟨h.circle location name rest hn hname hrest hl, hk⟩
  | case6 active known location name rest hn hc target ht hlook ha cause known' hp ih =>
    obtain ⟨hr, hk'⟩ := ih (h.target _ _ ht) (h.origin location _ hl) hk
    rw [hp] at hr hk'
    exact ⟨hr, hk'⟩
  | case7 active known location name rest hn hc target ht hlook ha p known' hp ih =>
    obtain ⟨hq, hk'⟩ := ih (h.target _ _ ht) (h.origin location _ hl) hk
    rw [hp] at hq hk'
    exact ⟨h.resume p rest (List.forall_mem_cons.mp hnames).2 hq, hk'⟩
  | case8 active known location name rest hn hc target ht hlook ha l known' hp ih' ih =>
    obtain ⟨hq, hk'⟩ := ih' (h.target _ _ ht) (h.origin location _ hl) hk
    rw [hp] at hq hk'
    exact ih (List.forall_mem_cons.mp hnames).2 hq (List.forall_mem_cons.mpr ⟨hq, hk'⟩)
  | case9 active known location name rest hn hc ht ih =>
    obtain ⟨hname, hrest⟩ := List.forall_mem_cons.mp hnames
    exact ih hrest (h.down location name hn hname ht hl) hk

theorem Upholds.satisfies (hnames : ∀ name ∈ names, N name) (hl : P []) :
    (fs.realPathFrom [] [] [] names).1.Satisfies P Q R :=
  (h.satisfiesFrom [] [] [] names hnames hl (by simp)).1

end

def IsProper (location : Location) : Prop := ∀ name ∈ location, ¬ IsSpecial name

theorem isProper_step (h : IsProper location) (name : Text) : IsProper (location.step name) := by
  intro n hn
  unfold Location.step at hn
  split at hn
  · exact h n hn
  · split at hn
    · exact h n (List.mem_of_mem_tail hn)
    · next h1 h2 =>
      rcases List.mem_cons.mp hn with rfl | hn
      · rintro (hs | hs | hs)
        · exact h1 (.inl hs)
        · exact h1 (.inr hs)
        · exact h2 hs
      · exact h n hn

theorem isProper_descend (h : IsProper location) (names : List Text) :
    IsProper (location.descend names) := by
  induction names generalizing location with
  | nil => exact h
  | cons name names ih => exact ih (isProper_step h name)

theorem isProper_resume {path : AbsolutePath} (h : IsProper path.location) (rest : List Text) :
    IsProper (resume path rest).location := by
  unfold resume
  split
  · exact isProper_descend (by simp [IsProper]) rest
  · exact isProper_descend h rest

theorem isProper_cons (h : IsProper location) (hn : ¬ IsSpecial name) : IsProper (name :: location) :=
  List.forall_mem_cons.mpr ⟨hn, h⟩

theorem isProper_origin (h : IsProper location) (names : List Text) :
    IsProper (location.origin names) := by
  unfold Location.origin
  split
  · simp [IsProper]
  · exact h

def isUnlinked (fs : FileSystem) : Location → Bool
  | [] => true
  | name :: parent => !(fs.lookup? (name :: parent)).any Entry.isLink && fs.isUnlinked parent

theorem isUnlinked_cons_iff : fs.isUnlinked (name :: location) = true ↔
    (∀ target, fs.lookup? (name :: location) ≠ some (.link target)) ∧ fs.isUnlinked location = true := by
  rw [isUnlinked, Bool.and_eq_true]
  refine and_congr ?_ Iff.rfl
  cases fs.lookup? (name :: location) with
  | none => simp
  | some entry => cases entry <;> simp [Entry.isLink]

theorem isUnlinked_tail (h : fs.isUnlinked location = true) : fs.isUnlinked location.tail = true := by
  cases location with
  | nil => rfl
  | cons name parent => exact (isUnlinked_cons_iff.mp h).2

theorem isUnlinked_of_append {xs : List Text} (h : fs.isUnlinked (xs ++ location) = true) :
    fs.isUnlinked location = true := by
  induction xs with
  | nil => exact h
  | cons x xs ih => exact ih (isUnlinked_tail h)

theorem isUnlinked_step (h : fs.isUnlinked location = true) (hn : IsSpecial name) :
    fs.isUnlinked (location.step name) = true := by
  unfold Location.step
  split
  · exact h
  · split
    · exact isUnlinked_tail h
    · next h1 h2 => rcases hn with hn | hn | hn <;> simp [hn] at h1 h2

theorem isUnlinked_origin (h : fs.isUnlinked location = true) (names : List Text) :
    fs.isUnlinked (location.origin names) = true := by
  unfold Location.origin
  split
  · rfl
  · exact h

theorem upholds_isProper (fs : FileSystem) :
    fs.Upholds (fun _ => True) IsProper (fun p => IsProper p.location) True where
  target _ _ _ _ _ := trivial
  step _ name _ hl := isProper_step hl name
  origin _ names hl := isProper_origin hl names
  down _ _ hn _ _ hl := isProper_cons hl hn
  circle _ _ rest hn _ _ hl := isProper_resume (isProper_cons hl hn) rest
  resume _ rest _ hp := isProper_resume hp rest
  refused _ _ _ _ _ := trivial

theorem isProper_realPathAlong {path : AbsolutePath} (h : fs.realPathAlong names = .ok path) :
    IsProper path.location := by
  have hs := (upholds_isProper fs).satisfies (fun _ (_ : _ ∈ names) => trivial) (by simp [IsProper])
  unfold realPathAlong at h
  split at h
  · next l hl =>
    rw [hl] at hs
    cases h
    exact hs
  · cases h
  · next p hp =>
    rw [hp] at hs
    split at h
    · cases h
    · split at h
      · cases h
      · cases h
        exact hs

theorem upholds_isUnlinked (fs : FileSystem) :
    fs.Upholds (fun _ => True) (fun l => fs.isUnlinked l = true) (fun _ => True) True where
  target _ _ _ _ _ := trivial
  step _ _ hn hl := isUnlinked_step hl hn
  origin _ names hl := isUnlinked_origin hl names
  down _ _ _ _ ht hl := isUnlinked_cons_iff.mpr ⟨ht, hl⟩
  circle _ _ _ _ _ _ _ := trivial
  resume _ _ _ _ := trivial
  refused _ _ _ _ _ := trivial

def MeetsNoCircle (fs : FileSystem) (names : List Text) : Prop :=
  ∃ location, (fs.realPathFrom [] [] [] names).1 = .found location

theorem isUnlinked_realPathAlong {path : AbsolutePath} (h : fs.realPathAlong names = .ok path)
    (hc : fs.MeetsNoCircle names) : fs.isUnlinked path.location = true := by
  obtain ⟨location, hl⟩ := hc
  have hs := (upholds_isUnlinked fs).satisfies (fun _ (_ : _ ∈ names) => trivial) rfl
  rw [realPathAlong, hl] at h
  rw [hl] at hs
  cases h
  exact hs

theorem advance_of_isUnlinked {base : Location} {halt : Halt} (hn : ∀ n ∈ names, ¬ IsSpecial n)
    (hu : fs.isUnlinked (names.reverse ++ base) = true) (h : fs.advance base names = .ok halt) :
    halt = .arrived (names.reverse ++ base) := by
  induction names generalizing base with
  | nil =>
    cases h
    rfl
  | cons name rest ih =>
    have happ : (name :: rest).reverse ++ base = rest.reverse ++ name :: base := by simp
    rw [happ] at hu ⊢
    rw [advance] at h
    split at h
    · split at h
      · next hs => exact absurd hs (hn name List.mem_cons_self)
      · split at h
        · cases h
        · split at h
          · cases h
          · next target ht => exact absurd ht ((isUnlinked_cons_iff.mp (isUnlinked_of_append hu)).1 target)
          · exact ih (fun n hm => hn n (List.mem_cons_of_mem name hm)) hu h
    · cases h

theorem follow_of_isUnlinked {links : Nat} {p : Place} (hp : IsProper location)
    (hu : fs.isUnlinked location = true) (h : fs.follow links [] location.reverse = .ok p) :
    p.location = location := by
  have ha : ∀ halt, fs.advance [] location.reverse = .ok halt → halt = .arrived location := by
    intro halt hh
    have hs : location.reverse.reverse ++ [] = location := by simp
    have hn : ∀ n ∈ location.reverse, ¬ IsSpecial n := fun n hn => hp n (List.mem_reverse.mp hn)
    have hadv := advance_of_isUnlinked hn (by rwa [hs]) hh
    rwa [hs] at hadv
  cases hh : fs.advance [] location.reverse with
  | error cause => cases links <;> (rw [follow, hh] at h; cases h)
  | ok halt =>
    have hhalt := ha halt hh
    subst hhalt
    cases links <;> (rw [follow, hh] at h; cases h; rfl)

end ColorCensus.FileSystem
