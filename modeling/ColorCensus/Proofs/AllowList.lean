import ColorCensus.AllowList
import ColorCensus.Proofs.FileSystem.Edit
import ColorCensus.Proofs.FileSystem.RealPath
import Mathlib.Data.List.Induction

namespace ColorCensus.AllowList

open Text FileSystem

inductive Operation where
  | put (path : Text) (entry : Entry)
  | remove (path : Text)
  | clear
  | load (source : Source) (name : Text)
  | loadStandard (source : Source)

def Operation.request : Operation → Option (Source × Text)
  | load source name => some (source, name)
  | loadStandard source => some (source, standard)
  | _ => none

structure State where
  files : FileSystem
  cache : Cache

namespace State

def start (fs : FileSystem) : State := ⟨fs, []⟩

def forget (s : State) : State := ⟨s.files, []⟩

def step (s : State) : Operation → State
  | .put path entry => ⟨(s.files.make path entry).files, s.cache⟩
  | .remove path => ⟨(s.files.remove path).toOption.getD s.files, s.cache⟩
  | .clear => s.forget
  | .load source name => ⟨s.files, (load s.files source s.cache name).2⟩
  | .loadStandard source => ⟨s.files, (loadStandard s.files source s.cache).2⟩

def answer (s : State) : Operation → Option (Except Fault (List Text))
  | .load source name => some (load s.files source s.cache name).1
  | .loadStandard source => some (loadStandard s.files source s.cache).1
  | _ => none

def run (s : State) (operations : List Operation) : State := operations.foldl step s

end State

abbrev Placed := Location × List UInt8 × Int

def placedBy (fs : FileSystem) : Operation → List Placed
  | .put path (.file content modified) =>
    (fs.landing path).toList.map fun location => (location, content, modified)
  | _ => []

def placed (s : State) : List Operation → List Placed
  | [] => []
  | operation :: operations => placedBy s.files operation ++ placed (s.step operation) operations

def placedAtFirst (fs : FileSystem) : List Placed :=
  fs.entries.filterMap fun e =>
    match e.2 with
    | .file content modified => some (e.1, content, modified)
    | _ => none

def Agree (xs : List Placed) : Prop :=
  ∀ x ∈ xs, ∀ y ∈ xs, x.1 = y.1 → seconds x.2.2 = seconds y.2.2 → x.2.1 = y.2.1

instance (xs : List Placed) : Decidable (Agree xs) :=
  inferInstanceAs (Decidable (∀ x ∈ xs, ∀ y ∈ xs, _ → _ → _))

def settles (s : State) (operation : Operation) : Bool :=
  match operation.request with
  | none => true
  | some (source, name) =>
    match locate s.files source name with
    | .ok file => s.files.isUnlinked file.path.location
    | .error _ => true

def settlesAll (s : State) : List Operation → Bool
  | [] => true
  | operation :: operations => settles s operation && settlesAll (s.step operation) operations

def IsRecord (fs : FileSystem) (operations : List Operation)
    (e : (AbsolutePath × Binary64) × List Text) : Prop :=
  ∃ before operation after source name content modified,
    operations = before ++ operation :: after ∧ operation.request = some (source, name) ∧
      locate ((State.start fs).run before).files source name = .ok ⟨e.1.1, content, e.1.2⟩ ∧
      ((State.start fs).run before).files.lookup? e.1.1.location = some (.file content modified) ∧
      seconds modified = e.1.2 ∧ ofBytes e.1.1 content = .ok e.2

variable {fs : FileSystem} {s : State} {source : Source} {name : Text} {file : Located} {cache : Cache}
  {operation : Operation} {operations : List Operation}

theorem run_append (s : State) (xs ys : List Operation) : s.run (xs ++ ys) = (s.run xs).run ys :=
  List.foldl_append

theorem placed_append (s : State) (xs ys : List Operation) :
    placed s (xs ++ ys) = placed s xs ++ placed (s.run xs) ys := by
  induction xs generalizing s with
  | nil => rfl
  | cons x xs ih =>
    rw [List.cons_append, placed, placed, ih, List.append_assoc]
    rfl

theorem settlesAll_append (s : State) (xs ys : List Operation) :
    settlesAll s (xs ++ ys) = (settlesAll s xs && settlesAll (s.run xs) ys) := by
  induction xs generalizing s with
  | nil => rfl
  | cons x xs ih =>
    rw [List.cons_append, settlesAll, settlesAll, ih, Bool.and_assoc]
    rfl

theorem settlesAll_concat :
    settlesAll s (operations ++ [operation]) = true ↔
      settlesAll s operations = true ∧ settles (s.run operations) operation = true := by
  rw [settlesAll_append, Bool.and_eq_true, settlesAll, settlesAll, Bool.and_true]

theorem isUnlinked_of_settles (h : settles s operation = true)
    (hr : operation.request = some (source, name)) (hf : locate s.files source name = .ok file) :
    s.files.isUnlinked file.path.location = true := by
  rw [settles, hr] at h
  dsimp only at h
  rwa [hf] at h

theorem mem_placedAtFirst {l : Location} {content : List UInt8} {modified : Int}
    (h : fs.lookup? l = some (.file content modified)) : (l, content, modified) ∈ placedAtFirst fs := by
  cases l with
  | nil => cases h
  | cons n parent =>
    exact List.mem_filterMap.mpr ⟨_, mem_entries_of_lookup? h, rfl⟩

theorem mem_placed_of_lookup? {l : Location} {content : List UInt8} {modified : Int}
    (h : ((State.start fs).run operations).files.lookup? l = some (.file content modified)) :
    (l, content, modified) ∈ placedAtFirst fs ++ placed (State.start fs) operations := by
  induction operations using List.reverseRecOn generalizing l content modified with
  | nil => exact List.mem_append_left _ (mem_placedAtFirst h)
  | append_singleton operations operation ih =>
    have hold : ∀ l content modified,
        ((State.start fs).run operations).files.lookup? l = some (.file content modified) →
        (l, content, modified) ∈
          placedAtFirst fs ++ placed (State.start fs) (operations ++ [operation]) := by
      intro l content modified hl
      rw [placed_append, ← List.append_assoc]
      exact List.mem_append_left _ (ih hl)
    rw [run_append] at h
    cases operation with
    | put path entry =>
      rcases lookup?_make_cases h with h | ⟨hl, rfl⟩
      · exact hold l content modified h
      · rw [placed_append, ← List.append_assoc]
        refine List.mem_append_right _ ?_
        rw [placed, placed, List.append_nil, placedBy, hl]
        exact List.mem_singleton_self _
    | remove path =>
      change ((((State.start fs).run operations).files.remove path).toOption.getD
        ((State.start fs).run operations).files).lookup? l = _ at h
      cases hr : ((State.start fs).run operations).files.remove path with
      | error cause =>
        rw [hr] at h
        exact hold l content modified h
      | ok fs' =>
        rw [hr] at h
        exact hold l content modified (filesWithin_remove hr l content modified h)
    | clear => exact hold l content modified h
    | load source name => exact hold l content modified h
    | loadStandard source => exact hold l content modified h

theorem locate_ok (h : locate fs source name = .ok file) :
    ∃ names, fs.realPathAlong names = .ok file.path ∧
      ∃ p modified, fs.follow linkLimit [] file.path.location.reverse = .ok p ∧
        fs.lookup? p.location = some (.file file.content modified) ∧
        file.modified = seconds modified := by
  obtain ⟨base, -, hin⟩ := bind_eq_ok.mp h
  unfold locateIn at hin
  split at hin
  · cases hin
  · next path hpath =>
    split at hin
    · split at hin
      · cases hin
      · next content modified hprobe =>
        cases hin
        unfold probe at hprobe
        split at hprobe
        · cases hprobe
        · split at hprobe
          · next p hp => exact ⟨_, hpath, p, modified, hp, Except.ok.inj hprobe, rfl⟩
          · cases hprobe
          · cases hprobe
      · cases hin
    · cases hin

theorem lookup?_of_isUnlinked (h : locate fs source name = .ok file)
    (hu : fs.isUnlinked file.path.location = true) :
    ∃ modified, fs.lookup? file.path.location = some (.file file.content modified) ∧
      file.modified = seconds modified := by
  obtain ⟨names, hreal, p, modified, hp, hl, hm⟩ := locate_ok h
  rw [follow_of_isUnlinked (isProper_realPathAlong hreal) hu hp] at hl
  exact ⟨modified, hl, hm⟩

theorem settles_of_meetsNoCircle (h : ∀ source name, operation.request = some (source, name) →
    ∀ base, source.base s.files = .ok base →
      s.files.MeetsNoCircle (namesBelow base.location (fileName name))) :
    settles s operation = true := by
  unfold settles
  split
  · rfl
  · next source name hr =>
    split
    · next file hf =>
      obtain ⟨base, hb, hin⟩ := bind_eq_ok.mp hf
      unfold locateIn at hin
      split at hin
      · cases hin
      · next path hpath =>
        have hfile : file.path = path := by
          split at hin
          · split at hin
            · cases hin
            · cases hin
              rfl
            · cases hin
          · cases hin
        rw [hfile]
        exact isUnlinked_realPathAlong hpath (h source name hr base hb)
    · rfl

theorem load_eq_of_lookup (h : ∀ file items, locate fs source name = .ok file →
    cache.lookup (file.path, file.modified) = some items → ofBytes file.path file.content = .ok items) :
    (load fs source cache name).1 = (load fs source [] name).1 := by
  unfold load
  cases hf : locate fs source name with
  | error f => rfl
  | ok file =>
    dsimp only
    rw [List.lookup_nil]
    cases hc : cache.lookup (file.path, file.modified) with
    | none => cases ofBytes file.path file.content <;> rfl
    | some items =>
      dsimp only
      rw [h file items hf hc]

theorem load_of_isError {f : Fault} (h : (load fs source cache name).1 = .error f) :
    (load fs source cache name).2 = cache := by
  unfold load at h ⊢
  split at h
  · rfl
  · split at h
    · cases h
    · split at h
      · rfl
      · cases h

theorem loadStandard_eq (fs : FileSystem) (source : Source) (cache : Cache) :
    loadStandard fs source cache =
      (match (load fs source cache standard).1 with
        | .ok [] => .error .empty
        | items => items, (load fs source cache standard).2) := by
  unfold loadStandard
  dsimp only
  split <;> simp_all

theorem mem_load {e : (AbsolutePath × Binary64) × List Text}
    (h : e ∈ (load fs source cache name).2) : e ∈ cache ∨
      ∃ content, locate fs source name = .ok ⟨e.1.1, content, e.1.2⟩ ∧ ofBytes e.1.1 content = .ok e.2 := by
  unfold load at h
  split at h
  · exact .inl h
  · next file hf =>
    split at h
    · exact .inl h
    · split at h
      · exact .inl h
      · next items hi =>
        rcases List.mem_cons.mp h with rfl | h
        · exact .inr ⟨file.content, hf, hi⟩
        · exact .inl h

theorem IsRecord.append {e : (AbsolutePath × Binary64) × List Text} (h : IsRecord fs operations e)
    (more : List Operation) : IsRecord fs (operations ++ more) e := by
  obtain ⟨before, operation, after, source, name, content, modified, hops, h⟩ := h
  refine ⟨before, operation, after ++ more, source, name, content, modified, ?_, h⟩
  rw [hops, List.append_assoc, List.cons_append]

theorem isRecord_of_mem_run {e : (AbsolutePath × Binary64) × List Text}
    (hs : settlesAll (State.start fs) operations = true)
    (h : e ∈ ((State.start fs).run operations).cache) : IsRecord fs operations e := by
  induction operations using List.reverseRecOn with
  | nil => cases h
  | append_singleton operations operation ih =>
    obtain ⟨hbefore, hop⟩ := settlesAll_concat.mp hs
    rw [run_append] at h
    have hload : ∀ source name, operation.request = some (source, name) →
        e ∈ (load ((State.start fs).run operations).files source
          ((State.start fs).run operations).cache name).2 →
        IsRecord fs (operations ++ [operation]) e := by
      intro source name hr hm
      rcases mem_load hm with hm | ⟨content, hf, hi⟩
      · exact (ih hbefore hm).append [operation]
      · obtain ⟨modified, hl, ht⟩ := lookup?_of_isUnlinked hf (isUnlinked_of_settles hop hr hf)
        exact ⟨operations, operation, [], source, name, content, modified, rfl, hr, hf, hl, ht.symm, hi⟩
    cases operation with
    | put path entry => exact (ih hbefore h).append _
    | remove path => exact (ih hbefore h).append _
    | clear => cases h
    | load source name => exact hload source name rfl h
    | loadStandard source =>
      change e ∈ (loadStandard _ source _).2 at h
      rw [loadStandard_eq] at h
      exact hload source standard rfl h

theorem load_run_eq (ha : Agree (placedAtFirst fs ++ placed (State.start fs) operations))
    (hs : settlesAll (State.start fs) (operations ++ [operation]) = true)
    (hr : operation.request = some (source, name)) :
    (load ((State.start fs).run operations).files source ((State.start fs).run operations).cache name).1 =
      (load ((State.start fs).run operations).files source [] name).1 := by
  obtain ⟨hs, hop⟩ := settlesAll_concat.mp hs
  apply load_eq_of_lookup
  intro file items hf hc
  obtain ⟨l₁, l₂, hcache, -⟩ := List.lookup_eq_some_iff.mp hc
  have hm : ((file.path, file.modified), items) ∈ ((State.start fs).run operations).cache :=
    hcache ▸ List.mem_append_right l₁ List.mem_cons_self
  obtain ⟨before, operation', after, source', name', content, modified, hops, -, -, hl, ht, hi⟩ :=
    isRecord_of_mem_run hs hm
  obtain ⟨modified', hl', ht'⟩ := lookup?_of_isUnlinked hf (isUnlinked_of_settles hop hr hf)
  have hnow := mem_placed_of_lookup? hl'
  have hthen : (file.path.location, content, modified) ∈
      placedAtFirst fs ++ placed (State.start fs) operations := by
    rw [hops, placed_append, ← List.append_assoc]
    exact List.mem_append_left _ (mem_placed_of_lookup? hl)
  have hcontent : content = file.content := ha _ hthen _ hnow rfl (ht.trans ht')
  rw [← hcontent]
  exact hi

structure IsRun (fs : FileSystem) (operations : List Operation) : Prop where
  settles : settlesAll (State.start fs) operations = true
  agree : Agree (placedAtFirst fs ++ placed (State.start fs) operations)

theorem Agree.sublist {xs ys : List Placed} (h : Agree ys) (hs : ∀ x ∈ xs, x ∈ ys) : Agree xs :=
  fun x hx y hy => h x (hs x hx) y (hs y hy)

theorem IsRun.of_append {xs ys : List Operation} (h : IsRun fs (xs ++ ys)) : IsRun fs xs where
  settles := by
    have hs := h.settles
    rw [settlesAll_append, Bool.and_eq_true] at hs
    exact hs.1
  agree := by
    apply h.agree.sublist
    intro x hx
    rw [placed_append, ← List.append_assoc]
    exact List.mem_append_left _ hx

theorem answer_run_eq (h : IsRun fs (operations ++ [operation])) :
    ((State.start fs).run operations).answer operation =
      ((State.start fs).run operations).forget.answer operation := by
  have hload : ∀ source name, operation.request = some (source, name) → _ := fun source name =>
    load_run_eq h.of_append.agree h.settles
  cases operation with
  | put path entry => rfl
  | remove path => rfl
  | clear => rfl
  | load source name => exact congrArg some (hload source name rfl)
  | loadStandard source =>
    have hs := hload source standard rfl
    simp only [State.answer, loadStandard_eq, State.forget]
    rw [hs]

theorem cache_step_of_isError {f : Fault} (h : s.answer operation = some (.error f)) :
    (s.step operation).cache = s.cache ∨ ∃ source, operation = .loadStandard source ∧
      (load s.files source s.cache standard).1 = .ok [] := by
  cases operation with
  | put path entry => cases h
  | remove path => cases h
  | clear => cases h
  | load source name => exact .inl (load_of_isError (Option.some.inj h))
  | loadStandard source =>
    have hs := Option.some.inj h
    rw [loadStandard_eq] at hs
    change (loadStandard s.files source s.cache).2 = _ ∨ _
    rw [loadStandard_eq]
    dsimp only at hs ⊢
    split at hs
    · next hl => exact .inr ⟨source, rfl, hl⟩
    · exact .inl (load_of_isError hs)

theorem cache_transparent (h : IsRun fs operations) {before after : List Operation}
    (hops : operations = before ++ operation :: after) :
    ((State.start fs).run before).answer operation =
        ((State.start fs).run before).forget.answer operation ∧
      (∀ e ∈ ((State.start fs).run before).cache, IsRecord fs before e) ∧
      ∀ f, ((State.start fs).run before).answer operation = some (.error f) →
        ((State.start fs).run (before ++ [operation])).cache = ((State.start fs).run before).cache ∨
        ∃ source, operation = .loadStandard source ∧
          (load ((State.start fs).run before).files source ((State.start fs).run before).cache
            standard).1 = .ok [] := by
  have hnext : operations = before ++ [operation] ++ after := by simp [hops]
  have hrun : IsRun fs (before ++ [operation]) := (hnext ▸ h).of_append
  refine ⟨answer_run_eq hrun, ?_, ?_⟩
  · intro e he
    exact isRecord_of_mem_run hrun.of_append.settles he
  · intro f hf
    rw [run_append]
    exact cache_step_of_isError hf

def emptyPlace : FileSystem := (FileSystem.empty ["w"]).write ["w"] .directory

def here : Source := ⟨"", some "."⟩

def listFile (text : Text) : Entry := .file (Utf8.encode text) 1000000000000

def linkedRun : List Operation :=
  [.put "a.json" (listFile "[\"a\"]"), .put "x.json" (.link "a.json"), .load here "x",
    .remove "x.json", .put "x.json" (listFile "[\"b\"]")]

theorem cache_transparent_linkedRun :
    IsRun emptyPlace (linkedRun ++ [.load here "x"]) ∧
      ((State.start emptyPlace).run linkedRun).answer (.load here "x") =
        ((State.start emptyPlace).run linkedRun).forget.answer (.load here "x") :=
  have h : IsRun emptyPlace (linkedRun ++ [.load here "x"]) :=
    ⟨by decide +kernel, by decide +kernel⟩
  ⟨h, (cache_transparent h rfl).1⟩

def circularRun : List Operation :=
  [.put "loop" (.link "loop"), .put "a.json" (listFile "[\"a\"]"), .put "x.json" (.link "a.json"),
    .load here "loop/../x", .remove "x.json", .put "x.json" (listFile "[\"b\"]")]

def emptyListRun : List Operation := [.put "themable_properties.json" (listFile "[]")]

theorem cache_not_transparent :
    (¬ ∀ fs operations before operation after,
      Agree (placedAtFirst fs ++ placed (State.start fs) operations) →
      operations = before ++ operation :: after →
      ((State.start fs).run before).answer operation =
        ((State.start fs).run before).forget.answer operation) ∧
    ¬ ∀ fs operations before operation after f,
      Agree (placedAtFirst fs ++ placed (State.start fs) operations) →
      operations = before ++ operation :: after →
      ((State.start fs).run before).answer operation = some (.error f) →
      ((State.start fs).run (before ++ [operation])).cache = ((State.start fs).run before).cache := by
  constructor
  · intro h
    have ha : Agree (placedAtFirst emptyPlace ++
        placed (State.start emptyPlace) (circularRun ++ [.load here "loop/../x"])) := by
      decide +kernel
    have he := h emptyPlace _ circularRun (.load here "loop/../x") [] ha rfl
    have hl : ((State.start emptyPlace).run circularRun).answer (.load here "loop/../x") =
        some (.ok ["a"]) := by decide +kernel
    have hr : ((State.start emptyPlace).run circularRun).forget.answer (.load here "loop/../x") =
        some (.ok ["b"]) := by decide +kernel
    rw [hl, hr] at he
    exact absurd he (by decide)
  · intro h
    have ha : Agree (placedAtFirst emptyPlace ++
        placed (State.start emptyPlace) (emptyListRun ++ [.loadStandard here])) := by decide +kernel
    have he : ((State.start emptyPlace).run emptyListRun).answer (.loadStandard here) =
        some (.error .empty) := by decide +kernel
    have hc := congrArg List.length (h emptyPlace _ emptyListRun (.loadStandard here) [] _ ha rfl he)
    have hl : ((State.start emptyPlace).run (emptyListRun ++ [.loadStandard here])).cache.length = 1 := by
      decide +kernel
    have hr : ((State.start emptyPlace).run emptyListRun).cache.length = 0 := by decide +kernel
    rw [hl, hr] at hc
    exact absurd hc (by decide)

end ColorCensus.AllowList
