import ColorCensus.Proofs.AllowList.Confinement
import ColorCensus.Proofs.FileSystem.Refusal
import ColorCensus.Proofs.Json.Excess
import ColorCensus.Proofs.Text.Utf8
import Mathlib.Data.Finset.Dedup

namespace ColorCensus.AllowList

open Text FileSystem CodePoint

inductive Fault.Kind where
  | file
  | document
  | list
  deriving DecidableEq

def Fault.kind? : Fault → Option Fault.Kind
  | outside .. => some .file
  | missing _ => some .file
  | invalid .. => some .document
  | notList .. => some .list
  | notScalars .. => some .list
  | empty => some .list
  | noDirectory _ => none
  | noRealPath _ => none
  | unusable _ => none
  | undecodable _ => none
  | tooManyDigits _ => none

inductive Ending where
  | list (texts : Finset Text)
  | fault (kind : Option Fault.Kind)

def Ending.of : Except Fault (List Text) → Ending
  | .ok items => .list items.toFinset
  | .error f => .fault f.kind?

inductive IsForm : Json.Value → Text → Prop where
  | true : IsForm (.boolean .true) "True"
  | false : IsForm (.boolean .false) "False"
  | integer (n : ℤ) : IsForm (.integer n) (Text.integer n)
  | real (x : Binary64) : IsForm (.real x) x.toShortest
  | string (s : Text) : IsForm (.string s) s

def IsTooLong (fs : FileSystem) (path : AbsolutePath) : Prop :=
  isTooLong pathLimit path.text = true ∨ fs.follow linkLimit [] path.location.reverse = .error .nameTooLong

def IsTextOf (fs : FileSystem) (base : AbsolutePath) (name document : Text) : Prop :=
  ∃ path l content, IsReadFrom fs base name path l content ∧
    ∃ cs : List Char, document = cs.map char ∧ content = Utf8.encode document

inductive Hinders (fs : FileSystem) (directory name : Text) : Prop where
  | directoryRefused (h : IsRefused fs (namesBelow fs.current directory))
  | fileRefused {base : AbsolutePath} (hb : fs.realPath fs.current directory = .ok base)
    (h : IsRefused fs (namesBelow base.location (fileName name)))
  | directoryCircle (h : EndsInCircle fs (namesBelow fs.current directory))
  | fileCircle {base : AbsolutePath} (hb : fs.realPath fs.current directory = .ok base)
    (h : EndsInCircle fs (namesBelow base.location (fileName name)))
  | tooLong {base path : AbsolutePath} (hb : fs.realPath fs.current directory = .ok base)
    (hp : fs.realPath base.location (fileName name) = .ok path) (hw : base.within path = true)
    (h : IsTooLong fs path)
  | bytes {base path : AbsolutePath} {l : Location} {content : List UInt8}
    (hb : fs.realPath fs.current directory = .ok base) (h : IsReadFrom fs base name path l content)
    (hc : ∀ cs : List Char, content ≠ Utf8.encode (cs.map char))
  | digits {base : AbsolutePath} {document : Text} (hb : fs.realPath fs.current directory = .ok base)
    (hd : IsTextOf fs base name document) (h : Json.OverrunsIn .standard document)

inductive EndsWith (fs : FileSystem) (directory name : Text) : Ending → Prop where
  | items {base : AbsolutePath} {document : Text} {values : List Json.Value} {texts : Finset Text}
    (hb : fs.realPath fs.current directory = .ok base) (hd : IsTextOf fs base name document)
    (hv : Json.IsDocument .standard document (.array values)) (hs : ∀ v ∈ values, ∃ s, IsForm v s)
    (hi : ∀ s, s ∈ texts ↔ ∃ v ∈ values, IsForm v s) : EndsWith fs directory name (.list texts)
  | noItems {base : AbsolutePath} {document : Text} {v : Json.Value}
    (hb : fs.realPath fs.current directory = .ok base) (hd : IsTextOf fs base name document)
    (hv : Json.IsDocument .standard document v) (hs : ∀ values, v = .array values → ∃ x ∈ values, ∀ s, ¬ IsForm x s) :
    EndsWith fs directory name (.fault (some .list))
  | noDocument {base : AbsolutePath} {document : Text} (hb : fs.realPath fs.current directory = .ok base)
    (hd : IsTextOf fs base name document) (hv : ∀ v, ¬ Json.IsDocument .standard document v)
    (hn : ¬ Json.OverrunsIn .standard document) :
    EndsWith fs directory name (.fault (some .document))
  | outside {base path : AbsolutePath} (hb : fs.realPath fs.current directory = .ok base)
    (hp : fs.realPath base.location (fileName name) = .ok path) (hw : base.within path = false) :
    EndsWith fs directory name (.fault (some .file))
  | noFile {base path : AbsolutePath} (hb : fs.realPath fs.current directory = .ok base)
    (hp : fs.realPath base.location (fileName name) = .ok path) (hs : ¬ IsTooLong fs path)
    (hf : ∀ path l content, ¬ IsReadFrom fs base name path l content) :
    EndsWith fs directory name (.fault (some .file))
  | hindered (h : Hinders fs directory name) : EndsWith fs directory name (.fault none)

variable {fs : FileSystem} {program directory name document : Text} {cache : Cache} {base path : AbsolutePath}
  {l : Location} {content : List UInt8} {items : List Text} {v : Json.Value} {values : List Json.Value}
  {names : List Text} {f : Fault} {s : Text}

theorem item?_eq_some_iff : item? v = some s ↔ IsForm v s := by
  constructor
  · intro h
    cases v with
    | boolean b =>
      cases b with
      | true => cases h; exact .true
      | false => cases h; exact .false
    | integer n => cases h; exact .integer n
    | real x => cases h; exact .real x
    | string s => cases h; exact .string s
    | null => cases h
    | array values => cases h
    | object fields => cases h
  · rintro ⟨⟩ <;> rfl

theorem exists_isForm_iff : (∃ s, IsForm v s) ↔ (item? v).isSome = true := by
  rw [Option.isSome_iff_exists]
  simp only [item?_eq_some_iff]

theorem ofValues_of_forall (name : Text) (hs : ∀ v ∈ values, ∃ s, IsForm v s) :
    ofValues name values = .ok (values.filterMap item?).eraseDups := by
  have hnone : values.filter (fun v => (item? v).isNone) = [] := by
    rw [List.filter_eq_nil_iff]
    intro v hv hnone
    have hsome := exists_isForm_iff.mp (hs v hv)
    rw [Option.isNone_iff_eq_none.mp hnone] at hsome
    cases hsome
  rw [ofValues, hnone]

theorem ofValues_of_exists (name : Text) (hs : ∃ x ∈ values, ∀ s, ¬ IsForm x s) :
    ∃ f, ofValues name values = .error f ∧ f.kind? = some .list := by
  obtain ⟨x, hx, hform⟩ := hs
  have hnone : (item? x).isNone = true := by
    rw [Option.isNone_iff_eq_none, Option.eq_none_iff_forall_ne_some]
    exact fun s h => hform s (item?_eq_some_iff.mp h)
  have hmem : x ∈ values.filter (fun v => (item? v).isNone) := List.mem_filter.mpr ⟨hx, hnone⟩
  rw [ofValues]
  split
  · next h => rw [h] at hmem; cases hmem
  · exact ⟨_, rfl, rfl⟩

theorem ofText_of_isDocument (path : AbsolutePath) (hv : Json.IsDocument .standard document v) :
    ofText path document = ofValue path.name v := by
  rw [ofText, Json.parse_eq_ok_iff.mpr hv]

theorem ofText_of_overrunsIn (path : AbsolutePath) (h : Json.OverrunsIn .standard document) :
    ∃ f, ofText path document = .error f ∧ f.kind? = none := by
  obtain ⟨f, n, hf⟩ := Json.overruns_parse_iff.mpr h
  refine ⟨.tooManyDigits f, ?_, rfl⟩
  rw [ofText, hf]

theorem ofText_of_not_isDocument (path : AbsolutePath) (hv : ∀ v, ¬ Json.IsDocument .standard document v)
    (hn : ¬ Json.OverrunsIn .standard document) :
    ∃ f, ofText path document = .error f ∧ f.kind? = some .document := by
  rw [ofText]
  split
  · next f n h => exact absurd (Json.overruns_parse_iff.mp ⟨f, n, h⟩) hn
  · exact ⟨_, rfl, rfl⟩
  · next v h => exact absurd (Json.parse_eq_ok_iff.mp h) (hv v)

theorem ofBytes_encode (path : AbsolutePath) (cs : List Char) :
    ofBytes path (Utf8.encode (cs.map char)) = ofText path (cs.map char) := by
  rw [ofBytes, Utf8.decode_eq_ok_iff.mpr ⟨cs, rfl, rfl⟩]

theorem ofBytes_of_forall_ne (path : AbsolutePath) (hc : ∀ cs : List Char, content ≠ Utf8.encode (cs.map char)) :
    ∃ f, ofBytes path content = .error f ∧ f.kind? = none := by
  cases h : Utf8.decode content with
  | error f => exact ⟨_, ofBytes_of_decode_error h, rfl⟩
  | ok document =>
    obtain ⟨cs, rfl, hcontent⟩ := Utf8.decode_eq_ok_iff.mp h
    exact absurd hcontent (hc cs)

theorem probe_isError_iff : (∃ f, fs.probe path = .error f) ↔ IsTooLong fs path := by
  unfold probe IsTooLong
  by_cases hlong : isTooLong pathLimit path.text = true
  · rw [if_pos hlong]
    exact iff_of_true ⟨_, rfl⟩ (.inl hlong)
  · rw [if_neg hlong, or_iff_right hlong]
    cases fs.follow linkLimit [] path.location.reverse with
    | ok p => simp
    | error cause => cases cause <;> simp

theorem base_of_given (hb : fs.realPath fs.current directory = .ok base) (program : Text) :
    Source.base ⟨program, some directory⟩ fs = .ok base := by
  rw [Source.base]
  dsimp only
  rw [hb]
  rfl

theorem load_of_realPath_error {g : RealPathFault} (h : fs.realPath fs.current directory = .error g)
    (program name : Text) : (load fs ⟨program, some directory⟩ [] name).1 = .error (.noRealPath g) := by
  apply load_of_base_error
  rw [Source.base]
  dsimp only
  rw [h]
  rfl

variable (hb : fs.realPath fs.current directory = .ok base)

include hb in
theorem load_of_locateIn_error (h : locateIn fs base name = .error f) (program : Text) :
    (load fs ⟨program, some directory⟩ [] name).1 = .error f := by
  rw [load_nil, locate, base_of_given hb]
  change (locateIn fs base name).bind _ = _
  rw [h]
  rfl

include hb in
theorem load_of_isTextOf (h : IsTextOf fs base name document) (program : Text) :
    ∃ path, (load fs ⟨program, some directory⟩ [] name).1 = ofText path document := by
  obtain ⟨path, l, content, hr, cs, rfl, rfl⟩ := h
  exact ⟨path, (hr.load_eq (base_of_given hb program)).trans (ofBytes_encode path cs)⟩

include hb in
theorem exists_isReadFrom_of_locateIn {file : Located} (h : locateIn fs base name = .ok file) :
    ∃ l, IsReadFrom fs base name file.path l file.content := by
  have hbase := base_of_given hb []
  refine exists_isReadFrom hbase ?_
  rw [locate, hbase]
  exact h

include hb in
theorem locateIn_of_forall_not (hp : fs.realPath base.location (fileName name) = .ok path)
    (hs : ¬ IsTooLong fs path) (hf : ∀ path l content, ¬ IsReadFrom fs base name path l content) :
    ∃ f, locateIn fs base name = .error f ∧ f.kind? = some .file := by
  cases hl : locateIn fs base name with
  | ok file =>
    obtain ⟨l, hr⟩ := exists_isReadFrom_of_locateIn hb hl
    exact absurd hr (hf _ _ _)
  | error f =>
    refine ⟨f, rfl, ?_⟩
    rw [locateIn, hp] at hl
    dsimp only at hl
    split at hl
    · split at hl
      · next g hg => exact absurd (probe_isError_iff.mp ⟨g, hg⟩) hs
      · cases hl
      · cases hl
        rfl
    · cases hl
      rfl

theorem locateIn_of_outside (hp : fs.realPath base.location (fileName name) = .ok path)
    (hw : base.within path = false) : locateIn fs base name = .error (.outside path base) := by
  rw [locateIn, hp]
  exact if_neg (by simp [hw])

theorem locateIn_of_isTooLong (hp : fs.realPath base.location (fileName name) = .ok path)
    (hw : base.within path = true) (hs : IsTooLong fs path) :
    ∃ f, locateIn fs base name = .error f ∧ f.kind? = none := by
  obtain ⟨g, hg⟩ := probe_isError_iff.mpr hs
  refine ⟨.unusable g, ?_, rfl⟩
  rw [locateIn, hp]
  dsimp only
  rw [if_pos hw, hg]

theorem locateIn_of_realPath_error {g : RealPathFault}
    (h : fs.realPath base.location (fileName name) = .error g) :
    locateIn fs base name = .error (.noRealPath g) := by
  rw [locateIn, h]

theorem exists_load_of_hinders (h : Hinders fs directory name) (program : Text) :
    ∃ f, (load fs ⟨program, some directory⟩ [] name).1 = .error f ∧ f.kind? = none := by
  have hdirectory (h : IsRefused fs (namesBelow fs.current directory) ∨
      EndsInCircle fs (namesBelow fs.current directory)) :
      ∃ f, (load fs ⟨program, some directory⟩ [] name).1 = .error f ∧ f.kind? = none := by
    obtain ⟨g, hg⟩ := realPathAlong_isError_iff.mpr h
    exact ⟨_, load_of_realPath_error hg program name, rfl⟩
  have hfile {base : AbsolutePath} (hb : fs.realPath fs.current directory = .ok base)
      (h : IsRefused fs (namesBelow base.location (fileName name)) ∨
        EndsInCircle fs (namesBelow base.location (fileName name))) :
      ∃ f, (load fs ⟨program, some directory⟩ [] name).1 = .error f ∧ f.kind? = none := by
    obtain ⟨g, hg⟩ := realPathAlong_isError_iff.mpr h
    exact ⟨_, load_of_locateIn_error hb (locateIn_of_realPath_error hg) program, rfl⟩
  cases h with
  | directoryRefused h => exact hdirectory (.inl h)
  | fileRefused hb h => exact hfile hb (.inl h)
  | directoryCircle h => exact hdirectory (.inr h)
  | fileCircle hb h => exact hfile hb (.inr h)
  | tooLong hb hp hw hs =>
    obtain ⟨f, hf, hk⟩ := locateIn_of_isTooLong hp hw hs
    exact ⟨f, load_of_locateIn_error hb hf program, hk⟩
  | bytes hb hr hc =>
    obtain ⟨f, hf, hk⟩ := ofBytes_of_forall_ne _ hc
    exact ⟨f, (hr.load_eq (base_of_given hb program)).trans hf, hk⟩
  | digits hb hd h =>
    obtain ⟨path, hload⟩ := load_of_isTextOf hb hd program
    rw [hload]
    exact ofText_of_overrunsIn path h

theorem ending_of_endsWith {e : Ending} (h : EndsWith fs directory name e) (program : Text) :
    Ending.of (load fs ⟨program, some directory⟩ [] name).1 = e := by
  have hfault {k : Option Fault.Kind} (h : ∃ f, (load fs ⟨program, some directory⟩ [] name).1 = .error f ∧
      f.kind? = k) : Ending.of (load fs ⟨program, some directory⟩ [] name).1 = .fault k := by
    obtain ⟨f, hf, rfl⟩ := h
    rw [hf]
    rfl
  cases h with
  | items hb hd hv hs hi =>
    obtain ⟨path, hload⟩ := load_of_isTextOf hb hd program
    rw [hload, ofText_of_isDocument path hv, ofValue, ofValues_of_forall path.name hs, Ending.of]
    congr 1
    ext s
    rw [hi, List.mem_toFinset, List.mem_eraseDups, List.mem_filterMap]
    simp only [item?_eq_some_iff]
  | @noItems base document v hb hd hv hs =>
    obtain ⟨path, hload⟩ := load_of_isTextOf hb hd program
    refine hfault ?_
    rw [hload, ofText_of_isDocument path hv]
    cases v with
    | array values => exact ofValues_of_exists path.name (hs values rfl)
    | _ => exact ⟨_, rfl, rfl⟩
  | noDocument hb hd hv hn =>
    obtain ⟨path, hload⟩ := load_of_isTextOf hb hd program
    refine hfault ?_
    rw [hload]
    exact ofText_of_not_isDocument path hv hn
  | outside hb hp hw => exact hfault ⟨_, load_of_locateIn_error hb (locateIn_of_outside hp hw) program, rfl⟩
  | noFile hb hp hs hf =>
    obtain ⟨f, hl, hk⟩ := locateIn_of_forall_not hb hp hs hf
    exact hfault ⟨f, load_of_locateIn_error hb hl program, hk⟩
  | hindered h => exact hfault (exists_load_of_hinders h program)

theorem exists_endsWith_of_isTextOf (hb : fs.realPath fs.current directory = .ok base)
    (hd : IsTextOf fs base name document) : ∃ e, EndsWith fs directory name e := by
  by_cases hv : ∃ v, Json.IsDocument .standard document v
  · obtain ⟨v, hv⟩ := hv
    by_cases hs : ∃ values, v = .array values ∧ ∀ x ∈ values, ∃ s, IsForm x s
    · obtain ⟨values, rfl, hs⟩ := hs
      refine ⟨.list (values.filterMap item?).toFinset, .items hb hd hv hs fun s => ?_⟩
      rw [List.mem_toFinset, List.mem_filterMap]
      simp only [item?_eq_some_iff]
    · refine ⟨_, .noItems hb hd hv fun values hvalues => ?_⟩
      by_contra hno
      push Not at hno
      exact hs ⟨values, hvalues, hno⟩
  · by_cases hn : Json.OverrunsIn .standard document
    · exact ⟨_, .hindered (.digits hb hd hn)⟩
    · exact ⟨_, .noDocument hb hd (fun v h => hv ⟨v, h⟩) hn⟩

theorem exists_endsWith (fs : FileSystem) (directory name : Text) : ∃ e, EndsWith fs directory name e := by
  cases hb : fs.realPath fs.current directory with
  | error g =>
    refine ⟨_, .hindered ?_⟩
    rcases realPathAlong_isError_iff.mp ⟨g, hb⟩ with h | h
    · exact .directoryRefused h
    · exact .directoryCircle h
  | ok base =>
    cases hp : fs.realPath base.location (fileName name) with
    | error g =>
      refine ⟨_, .hindered ?_⟩
      rcases realPathAlong_isError_iff.mp ⟨g, hp⟩ with h | h
      · exact .fileRefused hb h
      · exact .fileCircle hb h
    | ok path =>
      by_cases hf : ∃ path l content, IsReadFrom fs base name path l content
      · obtain ⟨path, l, content, hr⟩ := hf
        by_cases hc : ∃ cs : List Char, content = Utf8.encode (cs.map char)
        · obtain ⟨cs, rfl⟩ := hc
          exact exists_endsWith_of_isTextOf hb ⟨path, l, _, hr, cs, rfl, rfl⟩
        · exact ⟨_, .hindered (.bytes hb hr fun cs h => hc ⟨cs, h⟩)⟩
      · push Not at hf
        cases hw : base.within path with
        | false => exact ⟨_, .outside hb hp hw⟩
        | true =>
          by_cases hs : IsTooLong fs path
          · exact ⟨_, .hindered (.tooLong hb hp hw hs)⟩
          · exact ⟨_, .noFile hb hp hs hf⟩

def IsCurrent (fs : FileSystem) (source : Source) (name : Text) (cache : Cache) : Prop :=
  ∀ file items, locate fs source name = .ok file → cache.lookup (file.path, file.modified) = some items →
    ofBytes file.path file.content = .ok items

theorem load_endsWith_iff (hc : IsCurrent fs ⟨program, some directory⟩ name cache) (e : Ending) :
    Ending.of (load fs ⟨program, some directory⟩ cache name).1 = e ↔ EndsWith fs directory name e := by
  rw [load_eq_of_lookup hc]
  constructor
  · rintro rfl
    obtain ⟨e, he⟩ := exists_endsWith fs directory name
    rw [ending_of_endsWith he program]
    exact he
  · exact fun he => ending_of_endsWith he program

def dataFile (content : List UInt8) : FileSystem :=
  (FileSystem.empty ["w"]).write ["x.json", "data", "w"] (.file content 0)

def dataSource : Source := ⟨"", some "data"⟩

theorem load_endsWith_scalars :
    IsCurrent (dataFile (Utf8.encode "[\"b\", 1, true]")) dataSource "x"
      [((⟨false, ["x.json", "data", "w"]⟩, seconds 0), ["b", "1", "True"])] ∧
    EndsWith (dataFile (Utf8.encode "[\"b\", 1, true]")) "data" "x"
      (.list (["b", "1", "True"] : List Text).toFinset) := by
  have hfile : locate (dataFile (Utf8.encode "[\"b\", 1, true]")) dataSource "x" =
      .ok ⟨⟨false, ["x.json", "data", "w"]⟩, Utf8.encode "[\"b\", 1, true]", seconds 0⟩ := by decide +kernel
  have hitems : ofBytes ⟨false, ["x.json", "data", "w"]⟩ (Utf8.encode "[\"b\", 1, true]") =
      .ok ["b", "1", "True"] := by decide +kernel
  have hc : IsCurrent (dataFile (Utf8.encode "[\"b\", 1, true]")) dataSource "x"
      [((⟨false, ["x.json", "data", "w"]⟩, seconds 0), ["b", "1", "True"])] := by
    intro file items hl hlookup
    obtain rfl := Except.ok.inj (hfile.symm.trans hl)
    rw [List.lookup_cons_self] at hlookup
    rw [← Option.some.inj hlookup]
    exact hitems
  refine ⟨hc, (load_endsWith_iff hc _).mp ?_⟩
  have hload : (load (dataFile (Utf8.encode "[\"b\", 1, true]")) dataSource
      [((⟨false, ["x.json", "data", "w"]⟩, seconds 0), ["b", "1", "True"])] "x").1 =
        .ok ["b", "1", "True"] := by
    rw [load, hfile]
    dsimp only
    rw [List.lookup_cons_self]
  exact congrArg Ending.of hload

def dataCircle : FileSystem :=
  (FileSystem.empty ["w"]).write ["x.json", "data", "w"] (.link "x.json")

theorem load_fault_unnamed :
    (load (dataFile [0xFF]) dataSource [] "x").1 = .error (.undecodable ⟨.invalidStart, 0xFF, 0, 0⟩) ∧
    (load dataCircle dataSource [] "x").1 =
      .error (.noRealPath (.circular ⟨false, ["x.json", "data", "w"]⟩)) ∧
    ¬ ∀ (fs : FileSystem) (program directory name : Text) (f : Fault), char '\x00' ∉ name →
      (load fs ⟨program, some directory⟩ [] name).1 = .error f → f.kind? ≠ none := by
  have hbytes : (load (dataFile [0xFF]) dataSource [] "x").1 =
      .error (.undecodable ⟨.invalidStart, 0xFF, 0, 0⟩) := by decide +kernel
  refine ⟨hbytes, by decide +kernel, fun h => ?_⟩
  exact h (dataFile [0xFF]) "" "data" "x" _ (by decide) hbytes rfl

end ColorCensus.AllowList
