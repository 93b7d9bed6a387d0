import ColorCensus.Proofs.Text.Split
import ColorCensus.Proofs.Text.Strip
import ColorCensus.Trace
import Mathlib.Data.List.DropRight

namespace ColorCensus.Topics

open Text

variable {value : Option Text} {ops : List Operation} {o : Operation} {topics : List Text}
  {name topic setting : Text}

namespace Operation

def isReload : Operation → Bool
  | reload => true
  | _ => false

def value? : Operation → Option Text
  | set value => some (valueOf value)
  | _ => none

def enabled : Operation → List Text
  | enable topics => topics
  | _ => []

def untilReload (ops : List Operation) : List Operation := ops.rdropWhile fun o => !o.isReload

def sinceReload (ops : List Operation) : List Operation := ops.rtakeWhile fun o => !o.isReload

def lastValue (value : Option Text) (ops : List Operation) : Text :=
  (ops.filterMap value?).getLast?.getD (valueOf value)

theorem untilReload_reload (ops : List Operation) : untilReload (ops ++ [reload]) = ops ++ [reload] :=
  List.rdropWhile_concat_neg _ _ _ (by decide)

theorem sinceReload_reload (ops : List Operation) : sinceReload (ops ++ [reload]) = [] :=
  List.rtakeWhile_concat_neg _ _ _ (by decide)

theorem untilReload_concat (h : o.isReload = false) : untilReload (ops ++ [o]) = untilReload ops :=
  List.rdropWhile_concat_pos _ _ _ (by simp [h])

theorem sinceReload_concat (h : o.isReload = false) : sinceReload (ops ++ [o]) = sinceReload ops ++ [o] :=
  List.rtakeWhile_concat_pos _ _ _ (by simp [h])

theorem lastValue_concat (value : Option Text) (ops : List Operation) (o : Operation) :
    lastValue value (ops ++ [o]) = o.value?.getD (lastValue value ops) := by
  rw [lastValue, List.filterMap_append]
  cases h : o.value? with
  | none => simp [h, lastValue]
  | some s => simp [h]

end Operation

open Operation

theorem run_concat (t : Topics) (ops : List Operation) (o : Operation) :
    t.run (ops ++ [o]) = (t.run ops).step o := by
  rw [run, List.foldl_append]
  rfl

theorem setting_run (value : Option Text) (ops : List Operation) :
    ((start (valueOf value)).run ops).setting = lastValue value ops := by
  induction ops using List.reverseRecOn with
  | nil => rfl
  | append_singleton ops o ih =>
    rw [run_concat, lastValue_concat, ← ih]
    cases o <;> rfl

theorem active_run (value : Option Text) (ops : List Operation) :
    ((start (valueOf value)).run ops).active =
      named (lastValue value (untilReload ops)) ++ keys ((sinceReload ops).flatMap enabled) := by
  induction ops using List.reverseRecOn with
  | nil => exact (List.append_nil _).symm
  | append_singleton ops o ih =>
    rw [run_concat]
    cases o with
    | set v =>
      rw [untilReload_concat rfl, sinceReload_concat rfl, List.flatMap_append, keys_append,
        ← List.append_assoc, ← ih]
      exact (List.append_nil _).symm
    | reload =>
      have hv : lastValue value (ops ++ [.reload]) = lastValue value ops := lastValue_concat value ops .reload
      rw [untilReload_reload, sinceReload_reload, hv, ← setting_run]
      exact (List.append_nil _).symm
    | enable topics =>
      rw [untilReload_concat rfl, sinceReload_concat rfl, List.flatMap_append, keys_append,
        ← List.append_assoc, ← ih, List.flatMap_singleton]
      rfl

inductive IsNamed (value : Option Text) (ops : List Operation) : Text → Prop where
  | read (part : Text) (h : part ∈ split ',' (lastValue value (untilReload ops))) (hb : strip part ≠ []) :
    IsNamed value ops (lower (strip part))
  | enabled (topics : List Text) (topic : Text) (h : .enable topics ∈ sinceReload ops) (ht : topic ∈ topics)
    (hb : strip topic ≠ []) : IsNamed value ops (lower (strip topic))

theorem mem_keys : name ∈ keys topics ↔ ∃ topic ∈ topics, strip topic ≠ [] ∧ lower (strip topic) = name := by
  simp only [keys, key, List.mem_map, List.mem_filter, decide_eq_true_eq, and_assoc]

theorem mem_active_run : name ∈ ((start (valueOf value)).run ops).active ↔ IsNamed value ops name := by
  rw [active_run, List.mem_append, named, mem_keys, mem_keys]
  constructor
  · rintro (⟨part, h, hb, rfl⟩ | ⟨topic, h, hb, rfl⟩)
    · exact .read part h hb
    · obtain ⟨o, ho, ht⟩ := List.mem_flatMap.mp h
      cases o with
      | enable topics => exact .enabled topics topic ho ht hb
      | set value => cases ht
      | reload => cases ht
  · rintro (⟨part, h, hb⟩ | ⟨topics, topic, h, ht, hb⟩)
    · exact .inl ⟨part, h, hb, rfl⟩
    · exact .inr ⟨topic, List.mem_flatMap.mpr ⟨_, h, ht⟩, hb, rfl⟩

theorem isEnabled_iff (t : Topics) (topic : Text) :
    t.isEnabled topic = true ↔ every ∈ t.active ∨ lower (strip topic) ∈ t.active := by
  rw [isEnabled, asked, strip_lower, Bool.or_eq_true, List.contains_iff_mem, List.contains_iff_mem]

theorem named_join (h : ∀ topic ∈ topics, (',' : CodePoint) ∉ topic) : named (join "," topics) = keys topics := by
  cases topics with
  | nil => rfl
  | cons topic topics => exact congrArg keys (split_join h (List.cons_ne_nil topic topics))

theorem isEnabled_run (value : Option Text) (ops : List Operation) (topic : Text) :
    (((start (valueOf value)).run ops).isEnabled topic = true ↔
      IsNamed value ops every ∨ IsNamed value ops (lower (strip topic))) ∧
    ∀ topics : List Text, (∀ t ∈ topics, (',' : CodePoint) ∉ t) → ∀ (t : Topics) (setting : Text),
      (t.run [.set (some (join "," topics)), .reload]).isEnabled topic =
        (Topics.run ⟨setting, []⟩ [.enable topics]).isEnabled topic := by
  refine ⟨?_, fun topics h t setting => ?_⟩
  · rw [isEnabled_iff, mem_active_run, mem_active_run]
  · have hset : (t.run [.set (some (join "," topics)), .reload]).active = keys topics := named_join h
    have henable : (Topics.run ⟨setting, []⟩ [.enable topics]).active = keys topics := List.nil_append _
    rw [Bool.eq_iff_iff, isEnabled_iff, isEnabled_iff, hset, henable]

theorem isEnabled_run_sigmas :
    let topics : List Text := [" Scan", "", "ΟΔΟΣ\t"]
    (∀ t ∈ topics, (',' : CodePoint) ∉ t) ∧
      ((start "all").run [.set (some (join "," topics)), .reload]).isEnabled "\u2028οδοΣ " =
        (Topics.run ⟨[], []⟩ [.enable topics]).isEnabled "\u2028οδοΣ " ∧
      (Topics.run ⟨[], []⟩ [.enable topics]).isEnabled "\u2028οδοΣ " = true ∧
      (Topics.run ⟨[], []⟩ [.enable topics]).isEnabled "color" = false :=
  have h : ∀ t ∈ ([" Scan", "", "ΟΔΟΣ\t"] : List Text), (',' : CodePoint) ∉ t := by decide
  ⟨h, (isEnabled_run none [] "\u2028οδοΣ ").2 _ h (start "all") [], by decide +kernel, by decide +kernel⟩

end ColorCensus.Topics
