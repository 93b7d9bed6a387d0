import ColorCensus.Proofs.Census
import Mathlib.Data.List.Flatten

namespace ColorCensus

open Text

variable {P Q R U : List Text}

namespace Css

variable {rules : List Rule}

def declared (properties : List Text) (s : Text) : Except SyntaxFault Extraction :=
  (parse s).map (extract properties)

theorem declared_inter (h : ∀ p, p ∈ R ↔ p ∈ P ∧ p ∈ Q) (s : Text) :
    declared R s = (declared Q s).map (Extraction.restrict P) := by
  rw [declared, declared]
  cases parse s with
  | error f => rfl
  | ok rules => exact congrArg Except.ok (extract_inter h)

theorem fault_declared (P Q : List Text) (s : Text) :
    (declared P s).map Extraction.fault = (declared Q s).map Extraction.fault := by
  rw [declared, declared]
  cases parse s with
  | error f => rfl
  | ok rules => exact congrArg Except.ok (fault_extract.trans fault_extract.symm)

theorem listed_eq (h : ∀ item ∈ items rules, item.fault? = none) :
    listed P rules = (extract P rules).declarations := by
  have hf : (extract P rules).fault = none := by
    rw [fault_extract, List.findSome?_eq_none_iff]
    exact h
  exact (extract_of_fault_eq_none hf).symm

theorem listed_inter (h : ∀ item ∈ items rules, item.fault? = none)
    (hR : ∀ p, p ∈ R ↔ p ∈ P ∧ p ∈ Q) :
    listed R rules = (listed Q rules).filter fun d => P.contains d.property := by
  rw [listed_eq h, listed_eq h, extract_inter hR]
  rfl

theorem property_mem_of_mem_listed (h : ∀ item ∈ items rules, item.fault? = none) {d : Declaration}
    (hd : d ∈ listed U rules) : d.property ∈ U := by
  rw [listed_inter h (P := U) (Q := U) (by simp), List.mem_filter] at hd
  exact List.contains_iff_mem.mp hd.2

theorem listed_union_perm (h : ∀ item ∈ items rules, item.fault? = none)
    (hU : ∀ p, p ∈ U ↔ p ∈ P ∨ p ∈ Q) (hPQ : ∀ p ∈ P, p ∉ Q) :
    (listed P rules ++ listed Q rules).Perm (listed U rules) := by
  have hP : ∀ p, p ∈ P ↔ p ∈ P ∧ p ∈ U := by
    intro p
    rw [hU]
    exact ⟨fun hp => ⟨hp, .inl hp⟩, And.left⟩
  have hQ : ∀ p, p ∈ Q ↔ p ∈ Q ∧ p ∈ U := by
    intro p
    rw [hU]
    exact ⟨fun hq => ⟨hq, .inr hq⟩, And.left⟩
  have hflip : ∀ d ∈ listed U rules, Q.contains d.property = !P.contains d.property := by
    intro d hd
    rcases (hU _).mp (property_mem_of_mem_listed h hd) with hp | hq
    · simp [hp, hPQ _ hp]
    · have hp : d.property ∉ P := fun hp => hPQ _ hp hq
      simp [hp, hq]
  rw [listed_inter h hP, listed_inter h hQ, List.filter_congr hflip]
  exact List.filter_append_perm _ _

end Css

namespace Census

open Css FileSystem

theorem colorsIn_union_perm {content : List UInt8} (h : IsReadable content)
    (hU : ∀ p, p ∈ U ↔ p ∈ P ∨ p ∈ Q) (hPQ : ∀ p ∈ P, p ∉ Q) :
    (colorsIn P content ++ colorsIn Q content).Perm (colorsIn U content) := by
  obtain ⟨rules, hr, hi⟩ := h
  simp only [colorsIn, hr]
  rw [← List.flatMap_append]
  exact (listed_union_perm hi hU hPQ).flatMap_right _

theorem count_flatMap_colorsIn_union {files : List Found} (h : ∀ f ∈ files, IsReadable f.content)
    (hU : ∀ p, p ∈ U ↔ p ∈ P ∨ p ∈ Q) (hPQ : ∀ p ∈ P, p ∉ Q) (c : Text) :
    (files.flatMap fun f => colorsIn U f.content).count c =
      (files.flatMap fun f => colorsIn P f.content).count c +
        (files.flatMap fun f => colorsIn Q f.content).count c := by
  induction files with
  | nil => rfl
  | cons f files ih =>
    obtain ⟨hf, hfs⟩ := List.forall_mem_cons.mp h
    have hc := (colorsIn_union_perm hf hU hPQ).count_eq c
    rw [List.count_append] at hc
    simp only [List.flatMap_cons, List.count_append, ih hfs, ← hc]
    omega

theorem take_selects (hR : ∀ p, p ∈ R ↔ p ∈ P ∧ p ∈ Q) (hU : ∀ p, p ∈ U ↔ p ∈ P ∨ p ∈ Q) :
    (∀ s, (declared P s).map Extraction.fault = (declared Q s).map Extraction.fault ∧
      declared R s = (declared Q s).map (Extraction.restrict P)) ∧
    ∀ fs root r, (∀ p ∈ P, p ∉ Q) → (take fs U root).result = .ok r →
      ∃ x y, (take fs P root).result = .ok x ∧ (take fs Q root).result = .ok y ∧
        ∀ c, r.count c = x.count c + y.count c := by
  refine ⟨fun s => ⟨fault_declared P Q s, declared_inter hR s⟩, ?_⟩
  intro fs root r hPQ h
  obtain ⟨files, hf, hall, rfl⟩ := take_eq_ok.mp h
  refine ⟨_, _, take_eq_ok.mpr ⟨files, hf, hall, rfl⟩, take_eq_ok.mpr ⟨files, hf, hall, rfl⟩, ?_⟩
  intro c
  simp only [Report.count_ofTally, Tally.get_addAll, Tally.get_empty, Nat.zero_add]
  exact_mod_cast count_flatMap_colorsIn_union hall hU hPQ c

theorem take_selects_sample :
    declared ["color"] sampleSheet =
      (declared ["color", "margin"] sampleSheet).map (Extraction.restrict ["color", "fill"]) ∧
    ∃ x y, (take sampleFiles ["color"] ".").result = .ok x ∧
      (take sampleFiles ["margin"] ".").result = .ok y ∧
      ∀ c, Report.count ⟨2, [("rgb(255, 0, 0)", 6), ("rgb(0, 0, 255)", 2)]⟩ c = x.count c + y.count c :=
  have h : (take sampleFiles ["color", "margin"] ".").result =
      .ok ⟨2, [("rgb(255, 0, 0)", 6), ("rgb(0, 0, 255)", 2)]⟩ := by decide +kernel
  have hR : ∀ p : Text, p ∈ ([ofString "color"] : List Text) ↔
      p ∈ [ofString "color", ofString "fill"] ∧ p ∈ [ofString "color", ofString "margin"] := by
    have hne : ofString "fill" ≠ ofString "color" ∧ ofString "fill" ≠ ofString "margin" := by decide
    intro p
    simp only [List.mem_cons, List.not_mem_nil, or_false]
    constructor
    · rintro rfl
      exact ⟨.inl rfl, .inl rfl⟩
    · rintro ⟨rfl | rfl, hp⟩
      · rfl
      · exact absurd hp (not_or.mpr hne)
  ⟨((take_selects hR fun p => List.mem_append).1 sampleSheet).2,
    (take_selects (R := []) (by simp; decide) (by simp)).2 _ _ _ (by decide) h⟩

end Census

end ColorCensus
