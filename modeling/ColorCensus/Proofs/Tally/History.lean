import ColorCensus.Proofs.Color.Answer
import ColorCensus.Proofs.Tally
import ColorCensus.Tally.Operation

namespace ColorCensus.Tally

variable {t u : Tally} {c : Text} {n : ℕ} {o : Operation} {ops ops' : List Operation} {tokens : List Text}

def Operation.added : Operation → List Text
  | add color => [color]
  | addToken token => (Color.canonical? token).toList
  | addValue value => colorsOf value
  | addValues values => values.flatMap colorsOf
  | _ => []

def Operation.isAdding : Operation → Bool
  | add _ => true
  | addToken _ => true
  | addValue _ => true
  | addValues _ => true
  | _ => false

def credit : Operation → Answer → ℕ
  | .add _, _ => 1
  | .addToken _, .color (some _) => 1
  | .addValue _, .number n => n
  | .addValues _, .number n => n
  | _, _ => 0

theorem Operation.added_of_not_isAdding (h : o.isAdding = false) : o.added = [] := by
  cases o with
  | add color => cases h
  | addToken token => cases h
  | addValue value => cases h
  | addValues values => cases h
  | _ => rfl

theorem addToken_of_normalize {token : Text} {color : Option Text} (h : Color.normalize token = .ok color) :
    t.addToken token = .ok (t.addAll color.toList, color) := by
  rw [addToken, h]
  cases color <;> rfl

theorem addTokens_eq (h : ∀ token ∈ tokens, ∃ color, Color.normalize token = .ok color) :
    t.addTokens n tokens = (t.addAll (tokens.filterMap Color.canonical?),
      .ok (n + (tokens.filterMap Color.canonical?).length)) := by
  induction tokens generalizing t n with
  | nil => rfl
  | cons token tokens ih =>
    obtain ⟨⟨color, hc⟩, htokens⟩ := List.forall_mem_cons.mp h
    have hcanonical : Color.canonical? token = color := Color.canonical?_of_normalize hc
    rw [addTokens, addToken_of_normalize hc, List.filterMap_cons, hcanonical]
    cases color with
    | none => exact ih htokens
    | some c =>
      dsimp only
      rw [ih htokens, List.length_cons, Nat.add_assoc, Nat.add_comm 1]
      rfl

theorem addTokens_tokens (t : Tally) (n : ℕ) (value : Text) :
    t.addTokens n (Candidate.tokens value) = (t.addValue value, .ok (n + (colorsOf value).length)) :=
  addTokens_eq fun _ h => Color.exists_normalize_of_mem_tokens h

theorem addEach_eq (t : Tally) (n : ℕ) (values : List Text) :
    t.addEach n values = (t.addValues values, .ok (n + (values.flatMap colorsOf).length)) := by
  induction values generalizing t n with
  | nil => rfl
  | cons value values ih =>
    rw [addEach, addTokens_tokens]
    dsimp only
    rw [ih, List.flatMap_cons, List.length_append, Nat.zero_add, Nat.add_assoc]
    rfl

theorem step_tally (t : Tally) (o : Operation) : (t.step o).1 = t.addAll o.added := by
  cases o with
  | addToken token =>
    rw [step, Operation.added, Color.canonical?]
    cases hn : Color.normalize token with
    | error f =>
      rw [addToken, hn]
      rfl
    | ok color =>
      rw [addToken_of_normalize hn]
      rfl
  | addValue value =>
    rw [step, addTokens_tokens]
    rfl
  | addValues values =>
    rw [step, addEach_eq]
    exact addValues_eq_addAll t values
  | _ => rfl

theorem credit_step (t : Tally) (o : Operation) : credit o (t.step o).2 = o.added.length := by
  cases o with
  | addToken token =>
    rw [step, Operation.added, Color.canonical?]
    cases hn : Color.normalize token with
    | error f =>
      rw [addToken, hn]
      rfl
    | ok color =>
      rw [addToken_of_normalize hn]
      cases color <;> rfl
  | addValue value =>
    rw [step, addTokens_tokens]
    exact Nat.zero_add _
  | addValues values =>
    rw [step, addEach_eq]
    exact Nat.zero_add _
  | _ => rfl

theorem run_tally (t : Tally) (ops : List Operation) : (t.run ops).1 = t.addAll (ops.flatMap Operation.added) := by
  induction ops generalizing t with
  | nil => rfl
  | cons o ops ih =>
    rw [run, List.flatMap_cons, addAll_append, ← step_tally]
    exact ih (t.step o).1

theorem sum_credit_run (t : Tally) (ops : List Operation) :
    (List.zipWith credit ops (t.run ops).2).sum = (ops.flatMap Operation.added).length := by
  induction ops generalizing t with
  | nil => rfl
  | cons o ops ih =>
    rw [run, List.zipWith_cons_cons, List.sum_cons, credit_step, ih, List.flatMap_cons, List.length_append]

theorem total_addAll (t : Tally) (colors : List Text) : (t.addAll colors).total = t.total + colors.length := by
  induction colors generalizing t with
  | nil => rfl
  | cons c colors ih =>
    have hc : (t.addAll (c :: colors)).total = ((t.add c).addAll colors).total := rfl
    rw [hc, ih, total_add, List.length_cons, Nat.add_assoc, Nat.add_comm 1]

theorem keys_addAll (colors : List Text) :
    (empty.addAll colors).counts.map Prod.fst = colors.eraseDups := by
  rw [map_fst_addAll]
  simp [empty]

theorem flatMap_added_filter (ops : List Operation) :
    (ops.filter Operation.isAdding).flatMap Operation.added = ops.flatMap Operation.added := by
  induction ops with
  | nil => rfl
  | cons o ops ih =>
    rw [List.filter_cons, List.flatMap_cons]
    split
    · rw [List.flatMap_cons, ih]
    · next h => rw [ih, Operation.added_of_not_isAdding (by simpa using h), List.nil_append]

theorem get_run_empty (ops : List Operation) (c : Text) :
    (empty.run ops).1.get c = (ops.flatMap Operation.added).count c := by
  rw [run_tally, get_addAll, get_empty, Nat.zero_add]

theorem get_run_eq_of_perm (h : (ops.filter Operation.isAdding).Perm (ops'.filter Operation.isAdding))
    (c : Text) : (empty.run ops).1.get c = (empty.run ops').1.get c := by
  rw [get_run_empty, get_run_empty, ← flatMap_added_filter ops, ← flatMap_added_filter ops']
  exact (h.flatMap_right Operation.added).count_eq c

theorem get_run_le_append (t : Tally) (ops ops' : List Operation) (c : Text) :
    (t.run ops).1.get c ≤ (t.run (ops ++ ops')).1.get c := by
  rw [run_tally, run_tally, List.flatMap_append, addAll_append, get_addAll _ (ops'.flatMap _)]
  exact Nat.le_add_right _ _

theorem step_of_not_isAdding (t : Tally) (h : o.isAdding = false) : (t.step o).1 = t := by
  rw [step_tally, Operation.added_of_not_isAdding h]
  rfl

structure IsKept (ops : List Operation) (answers : List Answer) (t : Tally) : Prop where
  total : t.total = (List.zipWith credit ops answers).sum
  positive : ∀ e ∈ t.counts, 1 ≤ e.2
  distinct : (t.counts.map Prod.fst).Nodup
  order : t.counts.map Prod.fst = (ops.flatMap Operation.added).eraseDups
  size : (t.step .size).2 = .number (t.counts.map Prod.fst).length

theorem run_empty_isKept (ops : List Operation) : IsKept ops (empty.run ops).2 (empty.run ops).1 := by
  have hlawful := isLawful_empty.addAll (ops.flatMap Operation.added)
  rw [← run_tally] at hlawful
  refine ⟨?_, hlawful.positive, hlawful.distinct, ?_, ?_⟩
  · rw [sum_credit_run, run_tally, total_addAll, total_empty, Nat.zero_add]
  · rw [run_tally, keys_addAll]
  · rw [List.length_map]
    rfl

theorem run_conserves (ops : List Operation) :
    IsKept ops (empty.run ops).2 (empty.run ops).1 ∧
    (∀ more c, (empty.run ops).1.get c ≤ (empty.run (ops ++ more)).1.get c) ∧
    (∀ o, o.isAdding = false → ((empty.run ops).1.step o).1 = (empty.run ops).1) ∧
    ∀ ops', (ops.filter Operation.isAdding).Perm (ops'.filter Operation.isAdding) →
      ∀ c, (empty.run ops').1.get c = (empty.run ops).1.get c :=
  ⟨run_empty_isKept ops, fun more c => get_run_le_append empty ops more c,
    fun _ h => step_of_not_isAdding _ h, fun _ h c => (get_run_eq_of_perm h c).symm⟩

end ColorCensus.Tally
