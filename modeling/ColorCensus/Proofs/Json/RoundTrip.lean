import ColorCensus.Json.Value
import ColorCensus.Proofs.Json.Parsing
import ColorCensus.Proofs.Text.Case

namespace ColorCensus.Json

open Text CodePoint

variable {s rest : Text} {c : CodePoint} {v : Value} {n : ℕ} {limit : DigitLimit}

inductive Value.IsWhole (limit : DigitLimit) : Value → Prop where
  | null : IsWhole limit .null
  | boolean (b : Bool) : IsWhole limit (.boolean b)
  | integer (k : ℤ) (h : limit.admits k = true) : IsWhole limit (.integer k)
  | string (s : Text) : IsWhole limit (.string s)
  | array (vs : List Value) (h : ∀ v ∈ vs, IsWhole limit v) : IsWhole limit (.array vs)
  | object (vs : List (Text × Value)) (h : ∀ v ∈ vs, IsWhole limit v.2) : IsWhole limit (.object vs)

theorem head_natural_ne_zero (hn : 0 < n) : (natural n).head? ≠ some (char '0') := by
  induction n using Nat.strongRecOn with
  | ind n ih =>
    by_cases hlt : n < 10
    · have h : ∀ k : Fin 10, 0 < k.val → (natural k).head? ≠ some (char '0') := by decide
      exact h ⟨n, hlt⟩ hn
    · have hsplit : natural n = natural (n / 10) ++ natural (n % 10) := by
        have h := Nat.toDigits_append_toDigits (b := 10) (n := n / 10) (d := n % 10) (by decide)
          (by omega) (by omega)
        rw [Nat.div_add_mod] at h
        rw [natural, natural, natural, ← List.map_append, h]
      rw [hsplit, List.head?_append_of_ne_nil _ (natural_ne_nil _)]
      exact ih (n / 10) (by omega) (by omega)

theorem isWholePart_natural (n : ℕ) : IsWholePart (natural n) := by
  rcases Nat.eq_zero_or_pos n with rfl | hn
  · exact .inl natural_zero
  · exact .inr ⟨⟨natural_ne_nil n, fun c hc => isDigit_of_mem_natural hc⟩, head_natural_ne_zero hn⟩

theorem isNumber_integer (k : ℤ) : IsNumber (Text.integer k) (.integer k) := by
  cases k with
  | ofNat n =>
    have h := IsNumber.whole .none (isWholePart_natural n)
    rw [ofDecimal_natural] at h
    exact h
  | negSucc n =>
    have h := IsNumber.whole .minus (isWholePart_natural (n + 1))
    rw [ofDecimal_natural] at h
    exact h

theorem isCodeUnit_control (hn : n < 32) :
    IsCodeUnit (padLeft 4 '0' (hex n)) ∧ ofHex (padLeft 4 '0' (hex n)) = n := by
  have h : ∀ n : Fin 32, ((padLeft 4 '0' (hex n)).length = 4 ∧ ∀ c ∈ padLeft 4 '0' (hex n), isHex c = true) ∧
      ofHex (padLeft 4 '0' (hex n)) = n := by decide
  exact h ⟨n, hn⟩

theorem charText_cases (c : CodePoint) :
    (∃ d, charText c = [char '\\', d] ∧ simpleEscape d = some c) ∨
    (c.toNat < 32 ∧ charText c = char '\\' :: char 'u' :: padLeft 4 '0' (hex c.toNat)) ∨
    (c ≠ char '"' ∧ c ≠ char '\\' ∧ 32 ≤ c.toNat ∧ charText c = [c]) := by
  rw [charText]
  split_ifs with hquoted hn hr ht hf hb hcontrol
  · refine .inl ⟨c, rfl, ?_⟩
    obtain rfl | rfl := hquoted
    · rfl
    · rfl
  · exact .inl ⟨char 'n', rfl, hn ▸ rfl⟩
  · exact .inl ⟨char 'r', rfl, hr ▸ rfl⟩
  · exact .inl ⟨char 't', rfl, ht ▸ rfl⟩
  · exact .inl ⟨char 'f', rfl, hf ▸ rfl⟩
  · exact .inl ⟨char 'b', rfl, hb ▸ rfl⟩
  · exact .inr (.inl ⟨hcontrol, rfl⟩)
  · rw [not_or] at hquoted
    exact .inr (.inr ⟨hquoted.1, hquoted.2, Nat.not_lt.mp hcontrol, rfl⟩)

theorem spells_flatMap_charText (u : Text) : Spells (u.flatMap charText) u := by
  induction u with
  | nil => exact .nil
  | cons c u ih =>
    rw [List.flatMap_cons]
    obtain ⟨d, hc, he⟩ | ⟨hlt, hc⟩ | ⟨hq, hb, hle, hc⟩ := charText_cases c
    · obtain ⟨x, hx, rfl, rfl⟩ := simpleEscape_eq_some_iff.mp he
      rw [hc]
      exact .escape hx ih
    · obtain ⟨hunit, hvalue⟩ := isCodeUnit_control hlt
      have hlow : ¬ IsHighHalf (padLeft 4 '0' (hex c.toNat)) := by
        rintro ⟨-, hhigh, -⟩
        rw [hvalue] at hhigh
        omega
      have h := Spells.unit hunit (fun hhigh => absurd hhigh hlow) ih
      rw [hvalue, ofNat_toNat] at h
      rw [hc]
      exact h
    · rw [hc]
      exact .plain hq hb hle ih

theorem isString_stringText (u : Text) : IsString (stringText u) u := by
  have htext : stringText u = char '"' :: (u.flatMap charText ++ [char '"']) := by
    simp [stringText, ofString]
  rw [htext]
  exact .quoted (spells_flatMap_charText u)

theorem isBlank_newline (level : ℕ) : IsBlank (newline level) := by
  intro c hc
  obtain rfl | hc := List.mem_cons.mp hc
  · decide
  · rw [List.eq_of_mem_replicate hc]
    decide

theorem areItems_text {vs : List Value} (level outer : ℕ) (hv : IsValue limit (v.textAt level) v)
    (hvs : ∀ w ∈ vs, IsValue limit (w.textAt level) w) :
    AreItems limit (newline level ++ (v.textAt level ++ (Value.itemsText level vs ++ newline outer))) (v :: vs) := by
  induction vs generalizing v with
  | nil =>
    rw [Value.itemsText]
    exact areItems_singleton (p := ⟨newline level, v.textAt level, newline outer⟩)
      ⟨isBlank_newline level, isBlank_newline outer⟩ hv
  | cons w vs ih =>
    obtain ⟨hw, hvs⟩ := List.forall_mem_cons.mp hvs
    have h := (ih hw hvs).cons (p := ⟨newline level, v.textAt level, []⟩)
      ⟨isBlank_newline level, by simp [IsBlank]⟩ hv
    rw [Value.itemsText]
    simpa [Padded.whole, ofString] using h

def memberAt (level : ℕ) (k : Text) (v : Value) (after : Text) : Member :=
  ⟨⟨newline level, stringText k, []⟩, k, ⟨[char ' '], v.textAt level, after⟩, v⟩

theorem isLoose_memberAt {k after : Text} (level : ℕ) (h : IsBlank after) : (memberAt level k v after).IsLoose := by
  refine ⟨⟨isBlank_newline level, by simp [memberAt, IsBlank]⟩, ?_, h⟩
  simp only [memberAt, IsBlank, List.forall_mem_singleton]
  decide

theorem areMembers_text {k : Text} {fields : List (Text × Value)} (level outer : ℕ)
    (hv : IsValue limit (v.textAt level) v) (hfields : ∀ m ∈ fields, IsValue limit (m.2.textAt level) m.2) :
    AreMembers limit (newline level ++ (stringText k ++ (": " ++ (v.textAt level ++
      (Value.membersText level fields ++ newline outer))))) ((k, v) :: fields) := by
  induction fields generalizing k v with
  | nil =>
    have hloose : (memberAt level k v (newline outer)).IsLoose := isLoose_memberAt level (isBlank_newline outer)
    have h := areMembers_singleton hloose ⟨isString_stringText k, hv⟩
    rw [Value.membersText]
    simpa [memberAt, Member.whole, Padded.whole, ofString] using h
  | cons m fields ih =>
    obtain ⟨hm, hfields⟩ := List.forall_mem_cons.mp hfields
    have hloose : (memberAt level k v []).IsLoose := isLoose_memberAt level (by simp [IsBlank])
    have h := (ih (k := m.1) hm hfields).cons hloose ⟨isString_stringText k, hv⟩
    rw [Value.membersText]
    simpa [memberAt, Member.whole, Padded.whole, ofString] using h

theorem isValue_textAt (hv : v.IsWhole limit) (level : ℕ) : IsValue limit (v.textAt level) v := by
  induction hv generalizing level with
  | null =>
    rw [Value.textAt]
    exact .word .null
  | boolean b =>
    rw [Value.textAt]
    cases b with
    | true => exact .word .true
    | false => exact .word .false
  | integer k hk =>
    rw [Value.textAt]
    refine .number (isNumber_integer k) ?_
    rintro n ⟨⟩
    exact hk
  | string s =>
    rw [Value.textAt]
    exact .string (isString_stringText s)
  | array vs hvs ih =>
    cases vs with
    | nil =>
      rw [Value.textAt]
      exact .emptyArray (b := []) (by simp [IsBlank])
    | cons v vs =>
      obtain ⟨hv, hvs⟩ := List.forall_mem_cons.mp ih
      have h := (areItems_text (level + 1) level (hv (level + 1)) fun w hw => hvs w hw (level + 1)).isValue
      rw [Value.textAt]
      simpa [ofString] using h
  | object fields hfields ih =>
    cases fields with
    | nil =>
      rw [Value.textAt]
      exact .emptyObject (b := []) (by simp [IsBlank])
    | cons m fields =>
      obtain ⟨hm, hfields⟩ := List.forall_mem_cons.mp ih
      have h := (areMembers_text (k := m.1) (level + 1) level (hm (level + 1))
        fun w hw => hfields w hw (level + 1)).isValue
      rw [Value.textAt]
      simpa [ofString] using h

theorem parse_text (hv : v.IsWhole limit) (hr : IsBlank rest) : parse limit (v.text ++ rest) = .ok v :=
  parse_eq_ok_iff.mpr ⟨⟨[], v.text, rest⟩, ⟨by simp [IsBlank], hr⟩, isValue_textAt hv 0, rfl⟩

end ColorCensus.Json
