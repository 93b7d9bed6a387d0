import ColorCensus.Proofs.FileSystem.RealPath
import ColorCensus.Proofs.Text.Split

namespace ColorCensus

open Text CodePoint

variable {separator c : CodePoint} {s t path name : Text} {parts trail trail' : List Text}

def IsPassable (s : Text) : Prop := ∀ c ∈ s, c ≠ char '\x00' ∧ c.isUnencodable = false

instance (s : Text) : Decidable (IsPassable s) := inferInstanceAs (Decidable (∀ c ∈ s, _))

theorem isPassable_append_iff : IsPassable (s ++ t) ↔ IsPassable s ∧ IsPassable t := List.forall_mem_append

theorem Text.Utf8.encodeFault?_eq_none_iff :
    Utf8.encodeFault? s = none ↔ ∀ c ∈ s, c.isUnencodable = false := by
  have hrest : s.dropWhile (fun c => !c.isUnencodable) = [] ↔ ∀ c ∈ s, c.isUnencodable = false := by
    simp [List.dropWhile_eq_nil_iff]
  rw [← hrest, Utf8.encodeFault?]
  cases s.dropWhile fun c => !c.isUnencodable <;> simp

theorem FileSystem.refusal?_eq_none_iff : FileSystem.refusal? s = none ↔ IsPassable s := by
  have hpass : IsPassable s ↔ char '\x00' ∉ s ∧ ∀ c ∈ s, c.isUnencodable = false := by
    simp only [IsPassable, forall_and, ne_eq]
    exact and_congr_left' ⟨fun h hm => h _ hm rfl, fun h c hc heq => h (heq ▸ hc)⟩
  rw [hpass, ← Utf8.encodeFault?_eq_none_iff, FileSystem.refusal?]
  cases Utf8.encodeFault? s <;> simp

structure IsFileName (name : Text) : Prop where
  ordinary : ¬ FileSystem.IsSpecial name
  unbroken : char '/' ∉ name
  passable : IsPassable name
  short : FileSystem.isTooLong FileSystem.nameLimit name = false

theorem IsFileName.ne_nil (h : IsFileName name) : name ≠ [] := fun h0 => h.ordinary (.inl h0)

namespace Path

theorem exists_child_eq (path name : Text) : ∃ r, child path name = r ++ char '/' :: name ∧
    (path = r ∨ path = r ++ [char '/']) := by
  unfold child
  split
  · next h =>
    obtain ⟨r, rfl⟩ := endsWith_iff.mp h
    exact ⟨r, by simp, .inr rfl⟩
  · exact ⟨path, by simp [ofString], .inl rfl⟩

theorem exists_child_append (path name : Text) : ∃ t, child path name = path ++ t := by
  unfold child
  split
  · exact ⟨name, rfl⟩
  · exact ⟨_, List.append_assoc ..⟩

theorem steps_child (h : IsFileName name) (path : Text) :
    steps (child path name) = steps path ++ [name] := by
  have hhere : name ≠ here := fun hh => h.ordinary (.inr (.inl hh))
  have hname : (names name).filter (fun n => n ≠ [] ∧ n ≠ here) = [name] := by
    rw [names, split_eq_singleton h.unbroken]
    exact List.filter_cons_of_pos (by simp [h.ne_nil, hhere])
  obtain ⟨r, hr, hp⟩ := exists_child_eq path name
  have happ : steps (r ++ char '/' :: name) = steps r ++ [name] := by
    rw [steps, names, split_append_cons, List.filter_append]
    exact congrArg (steps r ++ ·) hname
  have hslash : steps (r ++ [char '/']) = steps r := by
    rw [steps, names, split_append_cons, List.filter_append]
    exact List.append_nil _
  rw [hr, happ]
  rcases hp with rfl | rfl
  · rfl
  · rw [hslash]

theorem root_cons (h : c ≠ char '/') : root (c :: s) = [] := by
  unfold root
  split <;> simp_all

theorem root_slash_cons (h : c ≠ char '/') : root (char '/' :: c :: s) = [char '/'] := by
  unfold root
  split
  · next he => exact absurd (List.cons.inj (List.cons.inj he).2).1 h
  · next he => exact absurd (List.cons.inj (List.cons.inj he).2).1 h
  · rfl
  · next hs => exact absurd rfl (hs (c :: s))

theorem root_slash_slash_cons (h : c ≠ char '/') :
    root (char '/' :: char '/' :: c :: s) = [char '/', char '/'] := by
  unfold root
  split
  · next he => exact absurd (List.cons.inj (List.cons.inj (List.cons.inj he).2).2).1 h
  · rfl
  · next hs he => exact absurd (List.cons.inj he).2.symm (hs (c :: s))
  · next hs => exact absurd rfl (hs (char '/' :: c :: s))

theorem root_child (h : IsFileName name) (h0 : path ≠ []) : root (child path name) = root path := by
  -- three characters of a path decide about its root, and no name begins with a slash
  obtain ⟨c, n, rfl⟩ := List.exists_cons_of_ne_nil h.ne_nil
  have hc : c ≠ char '/' := fun hc => h.unbroken (hc ▸ List.mem_cons_self ..)
  obtain ⟨t, ht⟩ := exists_child_append path (c :: n)
  match path with
  | [] => exact absurd rfl h0
  | a :: path =>
    by_cases ha : a = char '/'
    · subst ha
      match path with
      | [] => exact root_slash_cons hc
      | b :: path =>
        by_cases hb : b = char '/'
        · subst hb
          match path with
          | [] => exact root_slash_slash_cons hc
          | d :: path =>
            rw [ht]
            by_cases hd : d = char '/'
            · subst hd
              rfl
            · rw [List.cons_append, List.cons_append, List.cons_append, root_slash_slash_cons hd,
                root_slash_slash_cons hd]
        · rw [ht, List.cons_append, List.cons_append, root_slash_cons hb, root_slash_cons hb]
    · rw [ht, List.cons_append, root_cons ha, root_cons ha]

theorem child_ne_nil (path name : Text) : child path name ≠ [] := by
  obtain ⟨r, hr, -⟩ := exists_child_eq path name
  simp [hr]

theorem isAbsolute_cons_cons (part next : Text) (parts : List Text) :
    isAbsolute (part :: next :: parts) = decide (part = []) := by
  cases part <;> rfl

theorem isAbsolute_concat (h0 : parts ≠ []) (s t : Text) :
    isAbsolute (parts ++ [s]) = isAbsolute (parts ++ [t]) := by
  match parts with
  | [] => exact absurd rfl h0
  | [part] => rw [List.singleton_append, List.singleton_append, isAbsolute_cons_cons, isAbsolute_cons_cons]
  | part :: next :: parts =>
    rw [List.cons_append, List.cons_append, isAbsolute_cons_cons, List.cons_append, List.cons_append,
      isAbsolute_cons_cons]

theorem names_ne_singleton_nil (h0 : path ≠ []) : names path ≠ [[]] := by
  obtain ⟨c, s, rfl⟩ := List.exists_cons_of_ne_nil h0
  rw [names, split]
  split
  · intro h
    exact split_ne_nil (char '/') s (List.cons.inj h).2
  · split <;> simp

theorem isAbsolute_names_concat (h0 : path ≠ []) (s : Text) :
    isAbsolute (names path ++ [s]) = isAbsolute (names path) := by
  have hne := names_ne_singleton_nil h0
  match hs : names path with
  | [] => exact absurd hs (names_ne_nil path)
  | [part] =>
    rw [List.singleton_append, isAbsolute_cons_cons]
    cases part with
    | nil => exact absurd hs hne
    | cons c part => rfl
  | part :: next :: parts => rw [List.cons_append, List.cons_append, isAbsolute_cons_cons, isAbsolute_cons_cons]

def below (path : Text) (trail : List Text) : Text := trail.foldl child path

theorem below_cons (path name : Text) (trail : List Text) :
    below path (name :: trail) = below (child path name) trail := rfl

theorem steps_below (h : ∀ name ∈ trail, IsFileName name) (path : Text) :
    steps (below path trail) = steps path ++ trail := by
  induction trail generalizing path with
  | nil => exact (List.append_nil _).symm
  | cons name trail ih =>
    obtain ⟨hname, htrail⟩ := List.forall_mem_cons.mp h
    rw [below_cons, ih htrail, steps_child hname, List.append_assoc]
    rfl

theorem root_below (h : ∀ name ∈ trail, IsFileName name) (h0 : path ≠ []) :
    root (below path trail) = root path := by
  induction trail generalizing path with
  | nil => rfl
  | cons name trail ih =>
    obtain ⟨hname, htrail⟩ := List.forall_mem_cons.mp h
    rw [below_cons, ih htrail (child_ne_nil path name), root_child hname h0]

theorem slash_not_mem_of_mem_steps (h : name ∈ steps path) : char '/' ∉ name :=
  not_mem_of_mem_split ((List.mem_filter.mp h).1)

theorem ne_nil_of_mem_steps (h : name ∈ steps path) : name ≠ [] := by
  have hn := (List.mem_filter.mp h).2
  simp only [decide_eq_true_eq] at hn
  exact hn.1

theorem join_ne_nil (h : ∀ part ∈ parts, part ≠ []) (h0 : parts ≠ []) : join s parts ≠ [] := by
  cases parts with
  | nil => exact absurd rfl h0
  | cons part parts =>
    obtain ⟨c, t, ht⟩ := List.exists_cons_of_ne_nil (h part (List.mem_cons_self ..))
    obtain ⟨u, hu⟩ : ∃ u, s.intercalate ((c :: t) :: parts) = c :: u := exists_intercalate_cons
    rw [join, ht, hu]
    exact List.cons_ne_nil c u

theorem normal_eq (h : steps path ≠ []) : normal path = root path ++ join [char '/'] (steps path) := by
  have hj : join [char '/'] (steps path) ≠ [] := join_ne_nil (fun _ h => ne_nil_of_mem_steps h) h
  rw [normal, ofSteps]
  split
  · next he => exact absurd (List.append_eq_nil_iff.mp he).2 hj
  · rfl

theorem normal_below_inj (h : ∀ name ∈ trail, IsFileName name) (h' : ∀ name ∈ trail', IsFileName name)
    (h0 : path ≠ []) (ht : trail ≠ []) (ht' : trail' ≠ [])
    (he : normal (below path trail) = normal (below path trail')) : trail = trail' := by
  have hne : steps (below path trail) ≠ [] := by simp [steps_below h, ht]
  have hne' : steps (below path trail') ≠ [] := by simp [steps_below h', ht']
  rw [normal_eq hne, normal_eq hne', root_below h h0, root_below h' h0, List.append_cancel_left_eq] at he
  have hs := congrArg (split (char '/')) he
  rw [split_join (fun _ h => slash_not_mem_of_mem_steps h) hne,
    split_join (fun _ h => slash_not_mem_of_mem_steps h) hne', steps_below h, steps_below h',
    List.append_cancel_left_eq] at hs
  exact hs

end Path

end ColorCensus
