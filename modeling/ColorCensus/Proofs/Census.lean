import ColorCensus.Census
import ColorCensus.FileSystem.Change
import ColorCensus.Proofs.Css.Extraction
import ColorCensus.Proofs.FileSystem.Descent
import ColorCensus.Proofs.Tally
import Mathlib.Algebra.BigOperators.Group.List.Basic

namespace ColorCensus

open Text

namespace Css

variable {properties : List Text}

def Item.listed (properties : List Text) : Item → Option Declaration
  | .declaration name value =>
    if properties.contains name then some ⟨name, valueText value⟩ else none
  | _ => none

def Rule.listed (properties : List Text) : Rule → List Declaration
  | .style _ _ content => (Item.readAll content).filterMap (Item.listed properties)
  | _ => []

def listed (properties : List Text) (rules : List Rule) : List Declaration :=
  rules.flatMap (Rule.listed properties)

theorem andThen_of_fault_eq_none {x y : Extraction} (h : (x.andThen y).fault = none) :
    x.fault = none ∧ y.fault = none ∧ (x.andThen y).declarations = x.declarations ++ y.declarations := by
  obtain ⟨ds, f⟩ := x
  cases f with
  | some f => cases h
  | none => exact ⟨rfl, h, rfl⟩

theorem concat_of_fault_eq_none {xs : List Extraction} (h : (Extraction.concat xs).fault = none) :
    (Extraction.concat xs).declarations = xs.flatMap Extraction.declarations ∧
      ∀ x ∈ xs, x.fault = none := by
  induction xs with
  | nil => exact ⟨rfl, by simp⟩
  | cons x xs ih =>
    obtain ⟨hx, hxs, hd⟩ := andThen_of_fault_eq_none (y := Extraction.concat xs) h
    obtain ⟨hds, hf⟩ := ih hxs
    refine ⟨hd.trans ?_, List.forall_mem_cons.mpr ⟨hx, hf⟩⟩
    rw [hds, List.flatMap_cons]

theorem Item.extract_of_fault_eq_none {item : Item} (h : (item.extract properties).fault = none) :
    (item.extract properties).declarations = (item.listed properties).toList := by
  cases item with
  | declaration name value =>
    rw [Item.extract, Item.listed]
    split <;> rfl
  | atRule keyword => rfl
  | nested => rfl
  | broken p f => cases h

theorem Rule.extract_of_fault_eq_none {rule : Rule} (h : (rule.extract properties).fault = none) :
    (rule.extract properties).declarations = rule.listed properties := by
  cases rule with
  | atRule => rfl
  | broken => rfl
  | style p prelude content =>
    obtain ⟨hd, hf⟩ := concat_of_fault_eq_none h
    have hitems : ∀ item ∈ Item.readAll content,
        (item.extract properties).declarations = (item.listed properties).toList := by
      intro item hi
      exact Item.extract_of_fault_eq_none (hf _ (List.mem_map_of_mem hi))
    rw [Rule.extract, hd, Rule.listed, List.flatMap_map, List.filterMap_eq_flatMap_toList]
    exact List.flatMap_congr hitems

theorem extract_of_fault_eq_none {rules : List Rule} (h : (extract properties rules).fault = none) :
    (extract properties rules).declarations = listed properties rules := by
  obtain ⟨hd, hf⟩ := concat_of_fault_eq_none h
  have hrules : ∀ rule ∈ rules, (rule.extract properties).declarations = rule.listed properties := by
    intro rule hr
    exact Rule.extract_of_fault_eq_none (hf _ (List.mem_map_of_mem hr))
  rw [extract, hd, listed, List.flatMap_map]
  exact List.flatMap_congr hrules

end Css

def Report.count (r : Report) (c : Text) : ℤ := (r.counts.lookup c).getD 0

theorem Report.count_ofTally (n : ℤ) (t : Tally) (c : Text) : (ofTally n t).count c = t.get c := by
  rw [Report.count, Tally.get, ofTally]
  induction t.counts with
  | nil => rfl
  | cons e counts ih =>
    rw [List.map_cons, List.lookup_cons, List.lookup_cons]
    cases c == e.1 with
    | true => rfl
    | false => exact ih

theorem Report.keys_ofTally (n : ℤ) (t : Tally) :
    (ofTally n t).counts.map Prod.fst = t.counts.map Prod.fst := by
  rw [ofTally, List.map_map]
  rfl

namespace Census

open Css FileSystem

variable {fs : FileSystem} {properties : List Text} {source root c : Text} {content : List UInt8}

def rulesOf (content : List UInt8) : Option (List Rule) :=
  (textOf content).toOption.bind fun s => (parse s).toOption

def occurrences (properties : List Text) (content : List UInt8) (c : Text) : ℕ :=
  match rulesOf content with
  | some rules => ((listed properties rules).map fun d =>
      (Candidate.tokens d.value).countP fun t => Color.normalize t = .ok (some c)).sum
  | none => 0

def colorsIn (properties : List Text) (content : List UInt8) : List Text :=
  match rulesOf content with
  | some rules => (listed properties rules).flatMap fun d => Tally.colorsOf d.value
  | none => []

theorem count_colorsIn (properties : List Text) (content : List UInt8) (c : Text) :
    (colorsIn properties content).count c = occurrences properties content c := by
  rw [colorsIn, occurrences]
  cases rulesOf content with
  | none => rfl
  | some rules =>
    dsimp only
    rw [List.count_flatMap]
    congr 1
    apply List.map_congr_left
    intro d _
    exact Tally.count_colorsOf d.value c

theorem normalize_of_mem_colorsIn (h : c ∈ colorsIn properties content) :
    Color.normalize c = .ok (some c) := by
  unfold colorsIn at h
  split at h
  · obtain ⟨d, -, hd⟩ := List.mem_flatMap.mp h
    exact Tally.normalize_of_mem_colorsOf hd
  · cases h

def IsReadable (content : List UInt8) : Prop :=
  ∃ rules, rulesOf content = some rules ∧ ∀ item ∈ items rules, item.fault? = none

theorem rulesOf_eq_some {rules : List Rule} :
    rulesOf content = some rules ↔ ∃ s, textOf content = .ok s ∧ parse s = .ok rules := by
  rw [rulesOf]
  cases textOf content with
  | error f => simp [Except.toOption]
  | ok s => cases hp : parse s <;> simp [Except.toOption, hp]

theorem declarationsOf_eq_ok {ds : List Declaration} :
    declarationsOf properties source content = .ok ds ↔ ∃ rules, rulesOf content = some rules ∧
      (∀ item ∈ items rules, item.fault? = none) ∧ ds = listed properties rules := by
  have hin : ∀ s, declarationsIn properties source s = .ok ds ↔ ∃ rules, parse s = .ok rules ∧
      (∀ item ∈ items rules, item.fault? = none) ∧ ds = listed properties rules := by
    intro s
    rw [declarationsIn]
    cases hp : parse s with
    | error f => simp
    | ok rules =>
      simp only [Except.ok.injEq, exists_eq_left']
      rw [← List.findSome?_eq_none_iff, ← fault_extract (P := properties)]
      cases hf : (extract properties rules).fault with
      | some f => simp
      | none =>
        rw [← extract_of_fault_eq_none hf]
        simp [eq_comm]
  rw [declarationsOf, bind_eq_ok]
  simp only [hin, rulesOf_eq_some]
  constructor
  · rintro ⟨s, hs, rules, hp, h⟩
    exact ⟨rules, ⟨s, hs, hp⟩, h⟩
  · rintro ⟨rules, ⟨s, hs, hp⟩, h⟩
    exact ⟨s, hs, rules, hp, h⟩

theorem addValues_listed {rules : List Rule} (h : rulesOf content = some rules) (t : Tally) :
    t.addValues ((listed properties rules).map fun d => d.value) =
      t.addAll (colorsIn properties content) := by
  rw [Tally.addValues_eq_addAll, List.flatMap_map, colorsIn, h]

theorem countFiles_eq_ok {files : List Found} {t u : Tally} :
    (countFiles properties t files).result = .ok u ↔ (∀ f ∈ files, IsReadable f.content) ∧
      u = t.addAll (files.flatMap fun f => colorsIn properties f.content) := by
  induction files generalizing t with
  | nil =>
    rw [countFiles]
    simp [Outcome.done, Tally.addAll, eq_comm]
  | cons file files ih =>
    rw [countFiles, List.forall_mem_cons, List.flatMap_cons, Tally.addAll_append]
    cases hd : declarationsOf properties file.path file.content with
    | error f =>
      have hbad : ¬ IsReadable file.content := by
        rintro ⟨rules, hr, hi⟩
        rw [declarationsOf_eq_ok.mpr ⟨rules, hr, hi, rfl⟩] at hd
        cases hd
      simp [Outcome.fail, hbad]
    | ok ds =>
      obtain ⟨rules, hr, hi, rfl⟩ := declarationsOf_eq_ok.mp hd
      have hgood : IsReadable file.content := ⟨rules, hr, hi⟩
      dsimp only
      rw [Outcome.result_after, ih, addValues_listed hr]
      simp [hgood]

theorem take_eq_ok {r : Report} : (take fs properties root).result = .ok r ↔
    ∃ files, fs.find stylesheetEnding root = .ok files ∧ (∀ f ∈ files, IsReadable f.content) ∧
      r = .ofTally files.length
        (Tally.empty.addAll (files.flatMap fun f => colorsIn properties f.content)) := by
  rw [take]
  cases hf : fs.find stylesheetEnding root with
  | error f => simp [Outcome.fail]
  | ok files =>
    have hm : ((countFiles properties .empty files).map (Report.ofTally files.length)).result =
        (countFiles properties .empty files).result.map (Report.ofTally files.length) := rfl
    dsimp only
    rw [Outcome.result_after, hm, map_eq_ok]
    simp only [countFiles_eq_ok, Except.ok.injEq, exists_eq_left']
    constructor
    · rintro ⟨t, ⟨hall, rfl⟩, rfl⟩
      exact ⟨hall, rfl⟩
    · rintro ⟨hall, rfl⟩
      exact ⟨_, ⟨hall, rfl⟩, rfl⟩

theorem countFiles_ok {files : List Found} {t u : Tally}
    (h : (countFiles properties t files).result = .ok u) :
    u = t.addAll (files.flatMap fun f => colorsIn properties f.content) ∧
      ∀ f ∈ files, ∃ rules, rulesOf f.content = some rules := by
  obtain ⟨hall, hu⟩ := countFiles_eq_ok.mp h
  refine ⟨hu, fun f hf => ?_⟩
  obtain ⟨rules, hr, -⟩ := hall f hf
  exact ⟨rules, hr⟩

structure IsCensus (fs : FileSystem) (properties : List Text) (start : Place) (sheets : List Sheet)
    (r : Report) : Prop where
  distinct : (sheets.map Prod.fst).Nodup
  complete : ∀ trail, trail ∈ sheets.map Prod.fst ↔ IsEntry fs stylesheetEnding start trail
  contents : ∀ s ∈ sheets, ∃ q, Descends fs start s.1 q ∧ fs.content? q.location = some s.2
  readable : ∀ s ∈ sheets, ∃ rules, rulesOf s.2 = some rules
  fileCount : r.fileCount = sheets.length
  count : ∀ c, r.count c = (sheets.map fun s => occurrences properties s.2 c).sum
  keysDistinct : (r.counts.map Prod.fst).Nodup
  keys : ∀ c, c ∈ r.counts.map Prod.fst ↔ 0 < (sheets.map fun s => occurrences properties s.2 c).sum
  canonical : ∀ c ∈ r.counts.map Prod.fst, Color.normalize c = .ok (some c)

theorem isCensus_ofTally {start : Place} {files : List Found} {sheets : List Sheet}
    (hl : Lists fs stylesheetEnding ⟨start, root⟩ files sheets)
    (hr : ∀ f ∈ files, ∃ rules, rulesOf f.content = some rules) :
    IsCensus fs properties start sheets (.ofTally files.length
      (Tally.empty.addAll (files.flatMap fun f => colorsIn properties f.content))) := by
  have hlaw := Tally.isLawful_empty.addAll (files.flatMap fun f => colorsIn properties f.content)
  have hget : ∀ c, (Tally.empty.addAll (files.flatMap fun f => colorsIn properties f.content)).get c =
      (sheets.map fun s => occurrences properties s.2 c).sum := by
    intro c
    rw [Tally.get_addAll, Tally.get_empty, Nat.zero_add, List.count_flatMap, hl.files, List.map_map]
    congr 1
    apply List.map_congr_left
    intro s _
    exact count_colorsIn properties s.2 c
  refine ⟨hl.distinct, fun trail => hl.mem_iff_isEntry, ?_, ?_, ?_, ?_, ?_, ?_, ?_⟩
  · intro s hs
    obtain ⟨-, q, hd, -, hc⟩ := (hl.complete s.1 s.2).mp hs
    exact ⟨q, hd, hc⟩
  · intro s hs
    exact hr (s.found root) (hl.files ▸ List.mem_map_of_mem hs)
  · rw [Report.ofTally, hl.files, List.length_map]
  · intro c
    rw [Report.count_ofTally, hget c]
  · rw [Report.keys_ofTally]
    exact hlaw.distinct
  · intro c
    rw [Report.keys_ofTally, hlaw.mem_keys_iff, hget c]
  · intro c hc
    rw [Report.keys_ofTally, hlaw.mem_keys_iff, Tally.get_addAll, Tally.get_empty, Nat.zero_add, List.count_pos_iff,
      List.mem_flatMap] at hc
    obtain ⟨f, -, hf⟩ := hc
    exact normalize_of_mem_colorsIn hf

theorem take_isCensus {r : Report} (h : (take fs properties root).result = .ok r) :
    ∃ start sheets, fs.resolve root = .ok start ∧ fs.isDirectory start.location = true ∧
      IsCensus fs properties start sheets r := by
  unfold take at h
  split at h
  · cases h
  · next files hf =>
    obtain ⟨start, sheets, hs, hd, hl⟩ := exists_lists_of_find hf
    obtain ⟨t, hc, rfl⟩ := map_eq_ok.mp h
    obtain ⟨rfl, hr⟩ := countFiles_ok hc
    exact ⟨start, sheets, hs, hd, isCensus_ofTally hl hr⟩

def sampleSheet : Text := "a\x7bcolor:#F00;margin:red\x7d b\x7bcolor:Red blue\x7d"

def sampleFiles : FileSystem :=
  (((FileSystem.empty ["w"]).write ["a.css", "w"] (.file (Utf8.encode sampleSheet) 0)).write
    ["b.css", "d", "w"] (.link "../a.css")).write ["c.txt", "w"] (.file [] 0)

theorem take_isCensus_sample :
    ∃ start sheets, sampleFiles.resolve "." = .ok start ∧
      sampleFiles.isDirectory start.location = true ∧
      IsCensus sampleFiles ["color"] start sheets
        ⟨2, [("rgb(255, 0, 0)", 4), ("rgb(0, 0, 255)", 2)]⟩ :=
  have h : (take sampleFiles ["color"] ".").result =
      .ok ⟨2, [("rgb(255, 0, 0)", 4), ("rgb(0, 0, 255)", 2)]⟩ := by decide +kernel
  take_isCensus h

end Census

end ColorCensus
