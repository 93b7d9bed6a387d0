import ColorCensus.Proofs.Color.Written
import ColorCensus.Proofs.Css.Scan
import ColorCensus.Proofs.Text.Split

namespace ColorCensus.Plain

open Text CodePoint Css

def letters : Text := "abcdefghijklmnopqrstuvwxyz"

structure Word where
  text : Text
  ne_nil : text ≠ []
  isLetter : ∀ c ∈ text, c ∈ letters

structure Name where
  words : List Word
  ne_nil : words ≠ []

def Name.text (n : Name) : Text := join "-" (n.words.map Word.text)

inductive Ink where
  | solid (red green blue : Fin 256)
  | translucent (red green blue : Fin 256) (thousandths : Fin 1000)

namespace Ink

def function : Ink → Text
  | solid .. => "rgb"
  | translucent .. => "rgba"

def numerals : Ink → List Text
  | solid r g b => [natural r, natural g, natural b]
  | translucent r g b k => [natural r, natural g, natural b, Rgba.opacityText k]

def text (i : Ink) : Text := i.function ++ "(" ++ join ", " i.numerals ++ ")"

end Ink

structure Declaration where
  property : Name
  inks : List Ink
  ne_nil : inks ≠ []

namespace Declaration

def value (d : Declaration) : Text := join ", " (d.inks.map Ink.text)

def text (d : Declaration) : Text := d.property.text ++ ": " ++ d.value ++ "; "

end Declaration

structure Rule where
  selector : Word
  declarations : List Declaration

def Rule.text (r : Rule) : Text :=
  r.selector.text ++ " \x7b " ++ r.declarations.flatMap Declaration.text ++ "\x7d"

def sheetText (rules : List Rule) : Text := join "\n" (rules.map Rule.text)

def listed (properties : List Text) (rules : List Rule) : List Declaration :=
  (rules.flatMap Rule.declarations).filter fun d => properties.contains d.property.text

def colors (properties : List Text) (rules : List Rule) : List Text :=
  (listed properties rules).flatMap fun d => d.inks.map Ink.text

def IsQuiet (c : CodePoint) : Prop := c ∉ specials ∧ c ≠ char '\r' ∧ c ≠ char '\x0c' ∧ c ≠ char '\x00'

instance : DecidablePred IsQuiet := fun _ => inferInstanceAs (Decidable (_ ∧ _))

theorem classes_of_mem_letters : ∀ c ∈ letters,
    isNameStart c = true ∧ isNameChar c = true ∧ Css.isSpace c = false ∧ isBlank c = false := by
  decide

theorem isQuiet_of_mem_letters : ∀ c ∈ letters, IsQuiet c := by
  decide

theorem isQuiet_of_isPlain {c : CodePoint} (h : Color.IsPlain c) : IsQuiet c := by
  rcases h with h | h
  · obtain ⟨n, rfl⟩ := exists_of_isDigit h
    clear h
    revert n
    decide
  · revert c
    decide

theorem Word.exists_cons (w : Word) : ∃ c s, w.text = c :: s ∧ c ∈ letters := by
  obtain ⟨c, s, h⟩ := List.exists_cons_of_ne_nil w.ne_nil
  exact ⟨c, s, h, w.isLetter c (h ▸ List.mem_cons_self ..)⟩

theorem Name.exists_cons (n : Name) : ∃ c s, n.text = c :: s ∧ c ∈ letters := by
  obtain ⟨words, hne⟩ := n
  obtain ⟨w, words, rfl⟩ := List.exists_cons_of_ne_nil hne
  obtain ⟨c, s, h, hc⟩ := w.exists_cons
  obtain ⟨t, ht⟩ : ∃ t, Name.text ⟨w :: words, hne⟩ = c :: t := by
    rw [Name.text, join, List.map_cons, h]
    exact exists_intercalate_cons
  exact ⟨c, t, ht, hc⟩

theorem Name.forall_mem_text {q : CodePoint → Prop} (n : Name) (hl : ∀ c ∈ letters, q c) (hm : q (char '-')) :
    ∀ c ∈ n.text, q c := by
  refine forall_mem_intercalate (by simpa [ofString] using hm) ?_
  rw [List.forall_mem_map]
  exact fun w _ c hc => hl c (w.isLetter c hc)

theorem Ink.function_eq (i : Ink) : i.function = "rgb" ∨ i.function = "rgba" := by
  cases i with
  | solid r g b => exact .inl rfl
  | translucent r g b k => exact .inr rfl

theorem Ink.text_ends (i : Ink) : ∃ s, i.text = char 'r' :: s ++ [char ')'] := by
  rw [text]
  rcases i.function_eq with h | h <;> rw [h] <;> exact ⟨_, rfl⟩

theorem Declaration.value_ends (d : Declaration) : ∃ s, d.value = char 'r' :: s ++ [char ')'] := by
  refine intercalate_ends (by simpa using d.ne_nil) ?_
  rw [List.forall_mem_map]
  exact fun i _ => i.text_ends

theorem Ink.numeral_of_mem (i : Ink) : ∀ r ∈ i.numerals, Numeral r := by
  cases i with
  | solid r g b => simp [numerals, Color.numeral_natural]
  | translucent r g b k => simp [numerals, Color.numeral_natural, Color.numeral_opacityText k.isLt]

theorem Ink.isPlain_of_mem (i : Ink) : ∀ c ∈ i.text, Color.IsPlain c := by
  have hf : ∀ c ∈ i.function, Color.IsPlain c := by
    rcases i.function_eq with h | h <;> rw [h] <;> decide
  have hn : ∀ c ∈ join ", " i.numerals, Color.IsPlain c :=
    forall_mem_intercalate (by decide) fun r hr => Color.isPlain_of_numeral (i.numeral_of_mem r hr)
  rw [text]
  simp only [List.forall_mem_append]
  exact ⟨⟨⟨hf, by decide⟩, hn⟩, by decide⟩

theorem Declaration.isPlain_of_mem_value (d : Declaration) : ∀ c ∈ d.value, Color.IsPlain c := by
  refine forall_mem_intercalate (by decide) ?_
  rw [List.forall_mem_map]
  exact fun i _ => i.isPlain_of_mem

theorem Declaration.isQuiet_of_mem (d : Declaration) : ∀ c ∈ d.text, IsQuiet c := by
  have hp := d.property.forall_mem_text isQuiet_of_mem_letters (by decide)
  have hv : ∀ c ∈ d.value, IsQuiet c := fun c hc => isQuiet_of_isPlain (d.isPlain_of_mem_value c hc)
  rw [text]
  simp only [List.forall_mem_append]
  exact ⟨⟨⟨hp, by decide⟩, hv⟩, by decide⟩

end ColorCensus.Plain
