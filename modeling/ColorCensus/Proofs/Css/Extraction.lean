import ColorCensus.Css.Stylesheet

namespace ColorCensus.Css

variable {P Q R : List Text} {rules : List Rule} {s : Text}

theorem parse_eq_ok : parse s = .ok rules ↔
    imbalance s = none ∧ (∀ rule ∈ rules, rule.fault? = none) ∧ rules = Rule.readAll (Node.read s) := by
  rw [parse]
  cases imbalance s with
  | some i => simp
  | none =>
    cases hf : (Rule.readAll (Node.read s)).findSome? Rule.fault? with
    | some f =>
      obtain ⟨rule, hm, hr⟩ := List.exists_of_findSome?_eq_some hf
      simp only [reduceCtorEq, true_and, false_iff, not_and]
      rintro h rfl
      rw [h rule hm] at hr
      cases hr
    | none =>
      rw [List.findSome?_eq_none_iff] at hf
      simp only [Except.ok.injEq, true_and]
      constructor
      · rintro rfl
        exact ⟨hf, rfl⟩
      · exact fun h => h.2.symm

def Rule.items : Rule → List Item
  | .style _ _ content => Item.readAll content
  | _ => []

def items (rules : List Rule) : List Item := rules.flatMap Rule.items

def Item.fault? : Item → Option SyntaxFault
  | .broken p f => some (.broken p f)
  | _ => none

namespace Extraction

variable {x y : Extraction} {xs : List Extraction}

theorem fault_andThen : (x.andThen y).fault = x.fault.or y.fault := by
  obtain ⟨ds, f⟩ := x
  cases f <;> rfl

theorem fault_concat : (concat xs).fault = xs.findSome? fault := by
  induction xs with
  | nil => rfl
  | cons x xs ih =>
    have hc : (concat (x :: xs)).fault = x.fault.or (concat xs).fault := fault_andThen
    rw [hc, ih, List.findSome?_cons]
    cases x.fault <;> rfl

theorem concat_flatMap {α : Type} (f : α → List Extraction) (as : List α) :
    concat (as.flatMap f) = concat (as.map fun a => concat (f a)) := by
  induction as with
  | nil => rfl
  | cons a as ih =>
    rw [List.flatMap_cons, concat_append, ih]
    rfl

def restrict (properties : List Text) (x : Extraction) : Extraction :=
  ⟨x.declarations.filter fun d => properties.contains d.property, x.fault⟩

theorem restrict_andThen : (x.andThen y).restrict P = (x.restrict P).andThen (y.restrict P) := by
  obtain ⟨ds, f⟩ := x
  cases f with
  | some f => rfl
  | none => simp [restrict, andThen]

theorem restrict_concat : (concat xs).restrict P = concat (xs.map (restrict P)) := by
  induction xs with
  | nil => rfl
  | cons x xs ih =>
    have hc : (concat (x :: xs)).restrict P = (x.restrict P).andThen ((concat xs).restrict P) :=
      restrict_andThen
    rw [hc, ih]
    rfl

end Extraction

theorem extract_eq : extract P rules = .concat ((items rules).map (Item.extract P)) := by
  rw [extract, items, List.map_flatMap, Extraction.concat_flatMap]
  congr 1
  apply List.map_congr_left
  intro rule _
  cases rule <;> rfl

theorem Item.fault_extract (item : Item) : (item.extract P).fault = item.fault? := by
  cases item with
  | declaration name value =>
    rw [Item.extract]
    split <;> rfl
  | atRule keyword => rfl
  | nested => rfl
  | broken p f => rfl

theorem fault_extract : (extract P rules).fault = (items rules).findSome? Item.fault? := by
  rw [extract_eq, Extraction.fault_concat, List.findSome?_map]
  congr 1
  funext item
  exact item.fault_extract

theorem Item.extract_inter (h : ∀ p, p ∈ R ↔ p ∈ P ∧ p ∈ Q) (item : Item) :
    item.extract R = (item.extract Q).restrict P := by
  cases item with
  | declaration name value =>
    rw [Item.extract, Item.extract]
    by_cases hq : name ∈ Q
    · rw [if_pos (List.contains_iff_mem.mpr hq)]
      by_cases hp : name ∈ P
      · rw [if_pos (List.contains_iff_mem.mpr ((h name).mpr ⟨hp, hq⟩))]
        simp [Extraction.restrict, hp]
      · rw [if_neg fun hr => hp ((h name).mp (List.contains_iff_mem.mp hr)).1]
        simp [Extraction.restrict, Extraction.empty, hp]
    · rw [if_neg fun hr => hq ((h name).mp (List.contains_iff_mem.mp hr)).2,
        if_neg fun hr => hq (List.contains_iff_mem.mp hr)]
      rfl
  | atRule keyword => rfl
  | nested => rfl
  | broken p f => rfl

theorem extract_inter (h : ∀ p, p ∈ R ↔ p ∈ P ∧ p ∈ Q) :
    extract R rules = (extract Q rules).restrict P := by
  rw [extract_eq, extract_eq, Extraction.restrict_concat, List.map_map]
  congr 1
  apply List.map_congr_left
  intro item _
  exact item.extract_inter h

end ColorCensus.Css
