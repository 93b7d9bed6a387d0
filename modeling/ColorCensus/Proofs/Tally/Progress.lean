import ColorCensus.Proofs.Census
import ColorCensus.Proofs.Css.Extraction
import ColorCensus.Proofs.Tally.History
import ColorCensus.Tally

namespace ColorCensus.Tally

open Css

inductive Interruption where
  | grammar (fault : SyntaxFault)
  | color (fault : Color.Fault)
  deriving DecidableEq

def addItem (properties : List Text) (t : Tally) : Item → Tally × Option Interruption
  | .declaration name value =>
    if properties.contains name then
      match t.addTokens 0 (Candidate.tokens (valueText value)) with
      | (u, .ok _) => (u, none)
      | (u, .error f) => (u, some (.color f))
    else (t, none)
  | .broken p f => (t, some (.grammar (.broken p f)))
  | _ => (t, none)

def addItems (properties : List Text) (t : Tally) : List Item → Tally × Option Interruption
  | [] => (t, none)
  | item :: items =>
    match t.addItem properties item with
    | (u, none) => u.addItems properties items
    | (u, some i) => (u, some i)

def addRules (properties : List Text) (t : Tally) : List Rule → Tally × Option Interruption
  | [] => (t, none)
  | rule :: rules =>
    match t.addItems properties rule.items with
    | (u, none) => u.addRules properties rules
    | (u, some i) => (u, some i)

def addSheet (properties : List Text) (t : Tally) (s : Text) : Tally × Option Interruption :=
  match parse s with
  | .error f => (t, some (.grammar f))
  | .ok rules => t.addRules properties rules

def declaredColors (properties : List Text) (items : List Item) : List Text :=
  (items.filterMap (Item.listed properties)).flatMap fun d => colorsOf d.value

variable {P : List Text} {t u : Tally} {item : Item} {xs ys : List Item} {rules : List Rule} {s : Text}

theorem addItem_eq (P : List Text) (t : Tally) (item : Item) : t.addItem P item =
    (t.addAll (declaredColors P [item]), item.fault?.map .grammar) := by
  cases item with
  | declaration name value =>
    rw [addItem, declaredColors, List.filterMap_cons, Item.listed]
    split
    · rw [addTokens_tokens]
      simp [addValue, Item.fault?]
    · rfl
  | atRule keyword => rfl
  | nested => rfl
  | broken p f => rfl

theorem declaredColors_append (P : List Text) (xs ys : List Item) :
    declaredColors P (xs ++ ys) = declaredColors P xs ++ declaredColors P ys := by
  rw [declaredColors, List.filterMap_append, List.flatMap_append]
  rfl

theorem addItems_append (P : List Text) (t : Tally) (xs ys : List Item) : t.addItems P (xs ++ ys) =
    match t.addItems P xs with
    | (u, none) => u.addItems P ys
    | (u, some i) => (u, some i) := by
  induction xs generalizing t with
  | nil => rfl
  | cons item xs ih =>
    rw [List.cons_append, addItems, addItems]
    obtain ⟨u, _ | i⟩ := t.addItem P item
    · exact ih u
    · rfl

theorem addItems_of_forall (h : ∀ item ∈ xs, item.fault? = none) :
    t.addItems P xs = (t.addAll (declaredColors P xs), none) := by
  induction xs generalizing t with
  | nil => rfl
  | cons item xs ih =>
    obtain ⟨hitem, hxs⟩ := List.forall_mem_cons.mp h
    have hcons : declaredColors P (item :: xs) = declaredColors P [item] ++ declaredColors P xs :=
      declaredColors_append P [item] xs
    rw [addItems, addItem_eq, hitem, hcons, addAll_append]
    exact ih hxs

theorem addItems_broken {p : Position} {f : RuleFault} (h : ∀ item ∈ xs, item.fault? = none) :
    t.addItems P (xs ++ .broken p f :: ys) =
      (t.addAll (declaredColors P xs), some (.grammar (.broken p f))) := by
  rw [addItems_append, addItems_of_forall h]
  rfl

theorem addRules_eq (P : List Text) (t : Tally) (rules : List Rule) :
    t.addRules P rules = t.addItems P (items rules) := by
  induction rules generalizing t with
  | nil => rfl
  | cons rule rules ih =>
    have hcons : items (rule :: rules) = rule.items ++ items rules := List.flatMap_cons
    rw [addRules, hcons, addItems_append]
    obtain ⟨u, _ | i⟩ := t.addItems P rule.items
    · exact ih u
    · rfl

theorem addExtraction_andThen (t : Tally) (x y : Extraction) : t.addExtraction (x.andThen y) =
    match x.fault with
    | some _ => t.addExtraction x
    | none => (t.addExtraction x).addExtraction y := by
  obtain ⟨ds, f⟩ := x
  cases f with
  | some f => rfl
  | none => simp [addExtraction, Extraction.andThen, addValues]

theorem addExtraction_item (P : List Text) (t : Tally) (item : Item) :
    t.addExtraction (item.extract P) = t.addAll (declaredColors P [item]) := by
  cases item with
  | declaration name value =>
    rw [Item.extract, declaredColors, List.filterMap_cons, Item.listed]
    split
    · simp [addExtraction, addValues, addValue]
    · rfl
  | atRule keyword => rfl
  | nested => rfl
  | broken p f => rfl

theorem addItems_eq (P : List Text) (t : Tally) (xs : List Item) : t.addItems P xs =
    (t.addExtraction (.concat (xs.map (Item.extract P))), (xs.findSome? Item.fault?).map .grammar) := by
  induction xs generalizing t with
  | nil => rfl
  | cons item xs ih =>
    have hconcat : Extraction.concat ((item :: xs).map (Item.extract P)) =
        (item.extract P).andThen (.concat (xs.map (Item.extract P))) := rfl
    rw [addItems, addItem_eq, hconcat, addExtraction_andThen, Item.fault_extract, List.findSome?_cons,
      addExtraction_item]
    cases item.fault? with
    | none => exact ih _
    | some f => rfl

theorem addSheet_eq (P : List Text) (t : Tally) (s : Text) :
    t.addSheet P s = (t.addStylesheet P s).map id (Option.map .grammar) := by
  rw [addSheet, addStylesheet]
  cases parse s with
  | error f => rfl
  | ok rules =>
    dsimp only
    rw [addRules_eq, addItems_eq, ← extract_eq, ← fault_extract (P := P)]
    rfl

theorem addStylesheet_of_addItems {result : Tally × Option SyntaxFault} (h : parse s = .ok rules)
    (hi : t.addItems P (items rules) = result.map id (Option.map .grammar)) :
    t.addStylesheet P s = result := by
  have heq := addSheet_eq P t s
  rw [addSheet, h] at heq
  dsimp only at heq
  rw [addRules_eq, hi] at heq
  obtain ⟨u, f⟩ := result
  obtain ⟨hu, hf⟩ := Prod.ext_iff.mp heq
  refine Prod.ext hu.symm (Option.map_injective (fun f g hfg => ?_) hf.symm)
  exact Interruption.grammar.inj hfg

structure IsSum (t : Tally) (colors : List Text) (u : Tally) : Prop where
  count : ∀ c, u.get c = t.get c + colors.count c
  amounts : ∀ c, u.get c = t.get c + (empty.addAll colors).get c
  keys : u.counts.map Prod.fst =
    t.counts.map Prod.fst ++ colors.eraseDups.filter (· ∉ t.counts.map Prod.fst)

theorem isSum_addAll (t : Tally) (colors : List Text) : IsSum t colors (t.addAll colors) where
  count := get_addAll t colors
  amounts := by
    intro c
    rw [get_addAll, get_addAll, get_empty, Nat.zero_add]
  keys := map_fst_addAll t colors

theorem addStylesheet_until_fault (P : List Text) (t : Tally) (s : Text) :
    t.addSheet P s = (t.addStylesheet P s).map id (Option.map .grammar) ∧
    (∀ f, parse s = .error f → t.addStylesheet P s = (t, some f)) ∧
    ∀ rules, parse s = .ok rules →
      (∀ before p f after, items rules = before ++ .broken p f :: after →
        (∀ item ∈ before, item.fault? = none) →
        ∃ u, t.addStylesheet P s = (u, some (.broken p f)) ∧ IsSum t (declaredColors P before) u) ∧
      ((∀ item ∈ items rules, item.fault? = none) →
        ∃ u, t.addStylesheet P s = (u, none) ∧ IsSum t (declaredColors P (items rules)) u) := by
  refine ⟨addSheet_eq P t s, fun f h => addStylesheet_of_error h, fun rules h => ⟨?_, ?_⟩⟩
  · intro before p f after hi hbefore
    refine ⟨_, addStylesheet_of_addItems h ?_, isSum_addAll t _⟩
    rw [hi, addItems_broken hbefore]
    rfl
  · intro hall
    refine ⟨_, addStylesheet_of_addItems h ?_, isSum_addAll t _⟩
    rw [addItems_of_forall hall]
    rfl

end ColorCensus.Tally
