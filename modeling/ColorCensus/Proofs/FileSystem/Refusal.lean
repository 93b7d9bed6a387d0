import ColorCensus.Proofs.FileSystem.Path

namespace ColorCensus.FileSystem

open Text CodePoint

variable {fs : FileSystem} {location : Location} {path : Text} {names : List Text}

def IsRefused (fs : FileSystem) (names : List Text) : Prop :=
  (∃ cause, (fs.realPathFrom [] [] [] names).1 = .refused cause) ∨
  ∃ path, (fs.realPathFrom [] [] [] names).1 = .circular path ∧ ¬ IsPassable path.text

def EndsInCircle (fs : FileSystem) (names : List Text) : Prop :=
  ∃ path, (fs.realPathFrom [] [] [] names).1 = .circular path ∧ IsPassable path.text ∧
    fs.follow linkLimit [] path.location.reverse = .error .tooManyLinks

theorem realPathAlong_isError_iff :
    (∃ f, fs.realPathAlong names = .error f) ↔ IsRefused fs names ∨ EndsInCircle fs names := by
  unfold realPathAlong IsRefused EndsInCircle
  cases (fs.realPathFrom [] [] [] names).1 with
  | found l => simp
  | refused cause => simp
  | circular path =>
    simp only [RealPath.circular.injEq, exists_eq_left', ← refusal?_eq_none_iff]
    cases refusal? path.text with
    | some cause => simp
    | none =>
      cases fs.follow linkLimit [] path.location.reverse with
      | ok p => simp
      | error cause => cases cause <;> simp

def ArePassable (names : List Text) : Prop := ∀ name ∈ names, IsPassable name

theorem isPassable_text (h : ArePassable location) : IsPassable (Location.text location) := by
  refine List.forall_mem_cons.mpr ⟨by decide, ?_⟩
  exact forall_mem_intercalate (by decide) fun name hname => h name (List.mem_reverse.mp hname)

theorem arePassable_names (h : IsPassable path) : ArePassable (Path.names path) := fun _ hname c hc =>
  h c (mem_of_mem_split hname hc)

theorem isPassable_normal (h : IsPassable path) : IsPassable (Path.normal path) := by
  have hsteps : ArePassable (Path.steps path) := fun name hname =>
    arePassable_names h name (List.mem_filter.mp hname).1
  have hroot : IsPassable (Path.root path) := by
    unfold Path.root
    split <;> decide
  unfold Path.normal Path.ofSteps
  split
  · decide
  · exact isPassable_append_iff.mpr ⟨hroot, forall_mem_intercalate (by decide) hsteps⟩

theorem arePassable_namesBelow (hl : ArePassable location) (h : IsPassable path) :
    ArePassable (namesBelow location path) := by
  have hnames := arePassable_names (isPassable_normal h)
  rw [namesBelow]
  split
  · exact hnames
  · exact List.forall_mem_append.mpr ⟨fun name hname => hl name (List.mem_reverse.mp hname), hnames⟩

theorem arePassable_step (hl : ArePassable location) {name : Text} (h : IsPassable name) :
    ArePassable (location.step name) := by
  unfold Location.step
  split
  · exact hl
  · split
    · exact fun n hn => hl n (List.mem_of_mem_tail hn)
    · exact List.forall_mem_cons.mpr ⟨h, hl⟩

theorem arePassable_descend (hl : ArePassable location) (h : ArePassable names) :
    ArePassable (location.descend names) := by
  induction names generalizing location with
  | nil => exact hl
  | cons name names ih =>
    obtain ⟨hname, hnames⟩ := List.forall_mem_cons.mp h
    exact ih (arePassable_step hl hname) hnames

theorem arePassable_resume {path : AbsolutePath} (hl : ArePassable path.location) (h : ArePassable names) :
    ArePassable (resume path names).location := by
  unfold resume
  split
  · exact arePassable_descend (by simp [ArePassable]) h
  · exact arePassable_descend hl h

theorem arePassable_origin (hl : ArePassable location) (names : List Text) : ArePassable (location.origin names) := by
  unfold Location.origin
  split
  · simp [ArePassable]
  · exact hl

theorem isPassable_of_isSpecial {name : Text} (h : IsSpecial name) : IsPassable name := by
  rcases h with rfl | rfl | rfl <;> decide

theorem isPassable_text_of_location {path : AbsolutePath} (h : ArePassable path.location) :
    IsPassable path.text := by
  have htext := isPassable_text h
  unfold AbsolutePath.text
  split
  · exact List.forall_mem_cons.mpr ⟨by decide, htext⟩
  · exact htext

theorem upholds_arePassable (hlink : ∀ l target, fs.lookup? l = some (.link target) → IsPassable target) :
    fs.Upholds IsPassable ArePassable (fun p => ArePassable p.location) False where
  target l target ht := arePassable_names (hlink l target ht)
  step _ _ hn hl := arePassable_step hl (isPassable_of_isSpecial hn)
  origin _ names hl := arePassable_origin hl names
  down _ _ _ hname _ hl := List.forall_mem_cons.mpr ⟨hname, hl⟩
  circle _ _ _ _ hname hrest hl := arePassable_resume (List.forall_mem_cons.mpr ⟨hname, hl⟩) hrest
  resume _ _ hrest hp := arePassable_resume hp hrest
  refused _ _ hname hl hr :=
    hr (refusal?_eq_none_iff.mpr (isPassable_text (List.forall_mem_cons.mpr ⟨hname, hl⟩)))

theorem not_isRefused (hlink : ∀ l target, fs.lookup? l = some (.link target) → IsPassable target)
    (hl : ArePassable location) (h : IsPassable path) : ¬ IsRefused fs (namesBelow location path) := by
  have hs := (upholds_arePassable hlink).satisfies (arePassable_namesBelow hl h) (by simp [ArePassable])
  rintro (⟨cause, hc⟩ | ⟨p, hp, hno⟩)
  · rwa [hc] at hs
  · rw [hp] at hs
    exact hno (isPassable_text_of_location hs)

end ColorCensus.FileSystem
