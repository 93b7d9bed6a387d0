import ColorCensus.Proofs.AllowList
import ColorCensus.Proofs.FileSystem.Contents

namespace ColorCensus.AllowList

open Text FileSystem

variable {P : Location → Prop} {fs fs' : FileSystem} {source : Source} {name : Text}
  {base path : AbsolutePath} {file : Located} {l : Location} {content : List UInt8} {items : List Text}

def IsOutside (base : AbsolutePath) (l : Location) : Prop := base.location.within l = false

instance : Decidable (IsOutside base l) := inferInstanceAs (Decidable (_ = false))

structure IsReadFrom (fs : FileSystem) (base : AbsolutePath) (name : Text) (path : AbsolutePath)
    (l : Location) (content : List UInt8) : Prop where
  real : fs.realPath base.location (fileName name) = .ok path
  within : base.within path = true
  short : isTooLong pathLimit path.text = false
  leads : ∃ p, fs.follow linkLimit [] path.location.reverse = .ok p ∧ p.location = l
  holds : ∃ modified, fs.lookup? l = some (.file content modified)

theorem probe_eq_file {modified : Int} : fs.probe path = .ok (some (.file content modified)) ↔
    isTooLong pathLimit path.text = false ∧ ∃ p, fs.follow linkLimit [] path.location.reverse = .ok p ∧
      fs.lookup? p.location = some (.file content modified) := by
  rw [probe]
  cases isTooLong pathLimit path.text with
  | true => simp
  | false =>
    cases fs.follow linkLimit [] path.location.reverse with
    | ok p => simp
    | error cause => cases cause <;> simp

theorem locate_eq_ok (hb : source.base fs = .ok base) : locate fs source name = .ok file ↔
    fs.realPath base.location (fileName name) = .ok file.path ∧ base.within file.path = true ∧
      ∃ modified, fs.probe file.path = .ok (some (.file file.content modified)) ∧
        file.modified = seconds modified := by
  rw [locate, hb]
  change locateIn fs base name = _ ↔ _
  constructor
  · intro h
    unfold locateIn at h
    split at h
    · cases h
    · next path hpath =>
      split at h
      · next hw =>
        split at h
        · cases h
        · next content modified hprobe =>
          cases h
          exact ⟨hpath, hw, modified, hprobe, rfl⟩
        · cases h
      · cases h
  · rintro ⟨hreal, hw, modified, hprobe, hm⟩
    rw [locateIn, hreal]
    dsimp only
    rw [if_pos hw, hprobe]
    dsimp only
    rw [← hm]

theorem exists_isReadFrom (hb : source.base fs = .ok base) (h : locate fs source name = .ok file) :
    ∃ l, IsReadFrom fs base name file.path l file.content := by
  obtain ⟨hreal, hw, modified, hprobe, -⟩ := (locate_eq_ok hb).mp h
  obtain ⟨ht, p, hp, hl⟩ := probe_eq_file.mp hprobe
  exact ⟨p.location, hreal, hw, ht, ⟨p, hp, rfl⟩, modified, hl⟩

theorem IsReadFrom.locate_eq (hb : source.base fs = .ok base) {modified : Int}
    (h : IsReadFrom fs base name path l content) (hl : fs.lookup? l = some (.file content modified)) :
    locate fs source name = .ok ⟨path, content, seconds modified⟩ := by
  obtain ⟨p, hp, rfl⟩ := h.leads
  exact (locate_eq_ok hb).mpr
    ⟨h.real, h.within, modified, probe_eq_file.mpr ⟨h.short, p, hp, hl⟩, rfl⟩

theorem load_nil (fs : FileSystem) (source : Source) (name : Text) :
    (load fs source [] name).1 =
      (locate fs source name).bind fun file => ofBytes file.path file.content := by
  rw [load]
  cases locate fs source name with
  | error f => rfl
  | ok file =>
    dsimp only [Except.bind]
    rw [List.lookup_nil]
    cases ofBytes file.path file.content <;> rfl

theorem IsReadFrom.load_eq (hb : source.base fs = .ok base)
    (h : IsReadFrom fs base name path l content) :
    (load fs source [] name).1 = ofBytes path content := by
  obtain ⟨modified, hl⟩ := h.holds
  rw [load_nil, h.locate_eq hb hl]
  rfl

theorem IsReadFrom.not_isOutside (h : IsReadFrom fs base name path l content)
    (hc : fs.MeetsNoCircle (namesBelow base.location (fileName name))) : ¬ IsOutside base l := by
  obtain ⟨p, hp, rfl⟩ := h.leads
  rw [follow_of_isUnlinked (isProper_realPathAlong h.real) (isUnlinked_realPathAlong h.real hc) hp, IsOutside,
    (Bool.and_eq_true_iff.mp h.within).2]
  exact Bool.noConfusion

theorem firstDirectory?_agrees (h : AgreesExcept P fs fs') (paths : List AbsolutePath) :
    firstDirectory? fs' paths = firstDirectory? fs paths := by
  induction paths with
  | nil => rfl
  | cons path paths ih =>
    rw [firstDirectory?, firstDirectory?, ih]
    rcases h.probe path with hp | ⟨p, content, content', modified, -, -, hp, hp'⟩
    · rw [hp]
    · rw [hp, hp']
      rfl

theorem base_agrees (h : AgreesExcept P fs fs') (source : Source) : source.base fs' = source.base fs := by
  have hc : ∀ start, candidates fs' start = candidates fs start := by
    intro start
    simp only [candidates, h.current, h.realPath]
  simp only [Source.base, nearest, hc, h.current, h.realPath, firstDirectory?_agrees h]

theorem IsReadFrom.agrees (h : AgreesExcept P fs fs') (hr : IsReadFrom fs base name path l content) :
    ∃ content', IsReadFrom fs' base name path l content' ∧ (content' = content ∨ P l) := by
  obtain ⟨modified, hl⟩ := hr.holds
  obtain ⟨content', hl', hc⟩ := h.exists_file hl
  obtain ⟨p, hp, rfl⟩ := hr.leads
  exact ⟨content', ⟨h.realPath _ _ ▸ hr.real, hr.within, hr.short, ⟨p, h.follow _ _ _ ▸ hp, rfl⟩, modified, hl'⟩, hc⟩

theorem locateIn_agrees (h : AgreesExcept P fs fs') (base : AbsolutePath) (name : Text) :
    locateIn fs' base name = locateIn fs base name ∨ ∃ file, locateIn fs base name = .ok file := by
  simp only [locateIn, h.realPath]
  split
  · exact .inl rfl
  · next path _ =>
    split
    · rcases h.probe path with hp | ⟨p, content, content', modified, -, -, hp, -⟩
      · exact .inl (by rw [hp])
      · exact .inr ⟨_, by rw [hp]⟩
    · exact .inl rfl

theorem load_agrees (hb : source.base fs = .ok base) (h : AgreesExcept P fs fs')
    (hP : ∀ path l content, IsReadFrom fs base name path l content → ¬ P l) :
    (load fs' source [] name).1 = (load fs source [] name).1 := by
  have hb' : source.base fs' = .ok base := (base_agrees h source).trans hb
  rcases locateIn_agrees h base name with hl | ⟨file, hl⟩
  · rw [load_nil, load_nil, locate, locate, hb, hb']
    change (locateIn fs' base name).bind _ = (locateIn fs base name).bind _
    rw [hl]
  · obtain ⟨l, hr⟩ := exists_isReadFrom hb (bind_eq_ok.mpr ⟨base, hb, hl⟩)
    obtain ⟨content', hr', rfl | hp⟩ := hr.agrees h
    · rw [hr.load_eq hb, hr'.load_eq hb']
    · exact absurd hp (hP _ _ _ hr)

theorem ofText_ne_undecodable (path : AbsolutePath) (document : Text) (f : Utf8.Fault) :
    ofText path document ≠ .error (.undecodable f) := by
  rw [ofText]
  split
  · exact fun h => nomatch h
  · exact fun h => nomatch h
  · next v _ =>
    cases v with
    | array values =>
      rw [ofValue, ofValues]
      split <;> exact fun h => nomatch h
    | _ => exact fun h => nomatch h

theorem exists_ofBytes_ne (path : AbsolutePath) (content : List UInt8) :
    ∃ content', ofBytes path content' ≠ ofBytes path content := by
  obtain ⟨f, hbad⟩ : ∃ f, ofBytes path [255] = .error (.undecodable f) := ⟨_, rfl⟩
  have hgood : ofBytes path [] = ofText path [] := rfl
  by_cases h : ofBytes path [255] = ofBytes path content
  · refine ⟨[], ?_⟩
    rw [← h, hgood, hbad]
    exact ofText_ne_undecodable path [] f
  · exact ⟨[255], h⟩

theorem IsReadFrom.exists_load_ne (hb : source.base fs = .ok base)
    (h : IsReadFrom fs base name path l content) (hP : P l) :
    ∃ fs', AgreesExcept P fs fs' ∧ (load fs' source [] name).1 ≠ (load fs source [] name).1 := by
  obtain ⟨modified, hl⟩ := h.holds
  obtain ⟨content', hne⟩ := exists_ofBytes_ne path content
  obtain ⟨ha, hl'⟩ := agreesExcept_insert hl hP content'
  have hb' := (base_agrees ha source).trans hb
  have hr : IsReadFrom (fs.insert l (.file content' modified)) base name path l content' := by
    obtain ⟨content'', hr, -⟩ := h.agrees ha
    exact ⟨hr.real, hr.within, hr.short, hr.leads, modified, hl'⟩
  refine ⟨_, ha, ?_⟩
  rw [h.load_eq hb, hr.load_eq hb']
  exact hne

theorem load_of_base_error {f : Fault} (hb : source.base fs = .error f) (cache : Cache) :
    (load fs source cache name).1 = .error f := by
  rw [load, locate, hb]
  rfl

theorem load_confined_iff (fs : FileSystem) (source : Source) (name : Text) :
    (∀ f, source.base fs = .error f → ∀ P fs', AgreesExcept P fs fs' →
      (load fs' source [] name).1 = .error f) ∧
    ∀ base, source.base fs = .ok base →
      (∀ items, (load fs source [] name).1 = .ok items → ∃ path l content,
        IsReadFrom fs base name path l content ∧ ofBytes path content = .ok items) ∧
      ((∀ fs', AgreesExcept (IsOutside base) fs fs' →
          (load fs' source [] name).1 = (load fs source [] name).1) ↔
        ∀ path l content, IsReadFrom fs base name path l content → ¬ IsOutside base l) ∧
      ∀ path l content, IsReadFrom fs base name path l content → IsOutside base l →
        ¬ fs.MeetsNoCircle (namesBelow base.location (fileName name)) := by
  constructor
  · intro f hb P fs' ha
    exact load_of_base_error ((base_agrees ha source).trans hb) []
  · intro base hb
    refine ⟨?_, ⟨?_, ?_⟩, ?_⟩
    · intro items h
      rw [load_nil] at h
      obtain ⟨file, hf, hi⟩ := bind_eq_ok.mp h
      obtain ⟨l, hr⟩ := exists_isReadFrom hb hf
      exact ⟨file.path, l, file.content, hr, hi⟩
    · intro h path l content hr ho
      obtain ⟨fs', ha, hne⟩ := hr.exists_load_ne hb ho
      exact hne (h fs' ha)
    · intro h fs' ha
      exact load_agrees hb ha h
    · intro path l content hr ho hc
      exact hr.not_isOutside hc ho

def leakyFiles : FileSystem :=
  ((((FileSystem.empty ["w"]).write ["data", "w"] .directory).write ["loop", "data", "w"]
    (.link "loop")).write ["x.json", "data", "w"] (.link "../secret.json")).write ["secret.json", "w"]
      (listFile "[\"s\"]")

def leakySource : Source := ⟨"", some "data"⟩

theorem load_not_confined :
    (¬ ∀ fs source name base items, Source.base source fs = .ok base →
      (load fs source [] name).1 = .ok items → ∃ path l content,
        IsReadFrom fs base name path l content ∧ ofBytes path content = .ok items ∧
          ¬ IsOutside base l) ∧
    ¬ ∀ fs fs' source name base, Source.base source fs = .ok base →
      AgreesExcept (IsOutside base) fs fs' →
      (load fs' source [] name).1 = (load fs source [] name).1 := by
  have hb : leakySource.base leakyFiles = .ok ⟨false, ["data", "w"]⟩ := by decide +kernel
  have hreal : leakyFiles.realPath ["data", "w"] (fileName "loop/../x") =
      .ok ⟨false, ["x.json", "data", "w"]⟩ := by decide +kernel
  have hfollow : leakyFiles.follow linkLimit [] ["w", "data", "x.json"] =
      .ok ⟨["secret.json", "w"], 39⟩ := by decide +kernel
  have hfile : leakyFiles.lookup? ["secret.json", "w"] = some (listFile "[\"s\"]") := by decide +kernel
  have hr : IsReadFrom leakyFiles ⟨false, ["data", "w"]⟩ "loop/../x" ⟨false, ["x.json", "data", "w"]⟩
      ["secret.json", "w"] (Utf8.encode "[\"s\"]") :=
    ⟨hreal, by decide +kernel, by decide +kernel, ⟨_, hfollow, rfl⟩, _, hfile⟩
  have hout : IsOutside ⟨false, ["data", "w"]⟩ ["secret.json", "w"] := by decide +kernel
  constructor
  · intro h
    have hload : (load leakyFiles leakySource [] "loop/../x").1 = .ok ["s"] := by decide +kernel
    obtain ⟨path, l, content, hr', -, hin⟩ := h _ _ _ _ _ hb hload
    cases hr.real.symm.trans hr'.real
    obtain ⟨p, hp, rfl⟩ := hr'.leads
    cases hfollow.symm.trans hp
    exact hin hout
  · intro h
    obtain ⟨fs', ha, hne⟩ := hr.exists_load_ne hb hout
    exact hne (h leakyFiles fs' leakySource "loop/../x" _ hb ha)

end ColorCensus.AllowList
