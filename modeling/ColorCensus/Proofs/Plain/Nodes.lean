import ColorCensus.Proofs.Css.Reading
import ColorCensus.Proofs.Plain.Basic

namespace ColorCensus.Plain

open Text CodePoint Css

def comma : Node := .token .start (.delimiter [char ','])

def colon : Node := .token .start (.delimiter [char ':'])

def semicolon : Node := .token .start (.delimiter [char ';'])

def blank : Node := .token .start (.space [char ' '])

def newline : Node := .token .start (.space [char '\n'])

def Ink.argumentNodes (i : Ink) : List Node :=
  [comma, blank].intercalate (i.numerals.map fun r => [.token .start (.number r)])

def Ink.node (i : Ink) : Node := .function .start i.function i.argumentNodes true

def Declaration.valueNodes (d : Declaration) : List Node :=
  [comma, blank].intercalate (d.inks.map fun i => [i.node])

def Declaration.nodes (d : Declaration) : List Node :=
  .token .start (.ident d.property.text) :: ([colon, blank] ++ d.valueNodes ++ [semicolon, blank])

def Rule.content (r : Rule) : List Node := blank :: r.declarations.flatMap Declaration.nodes

def Rule.nodes (r : Rule) : List Node :=
  [.token .start (.ident r.selector.text), blank, .block .start .curly r.content true]

def sheetNodes (rules : List Rule) : List Node := [newline].intercalate (rules.map Rule.nodes)

variable {c : CodePoint} {s : Text}

theorem reads_name (hs : ∀ d ∈ c :: s, isNameChar d = true) (hc : c ∈ letters) :
    Reads (fun d => d = ' ' ∨ d = ':') (c :: s) [.token .start (.ident (c :: s))] := by
  refine (Reads.name hs (classes_of_mem_letters c hc).1).weaken ?_
  rintro d (rfl | rfl) <;> decide

theorem reads_blank : Reads (fun d => Css.isSpace d = false) [char ' '] [blank] := .space (by decide)

theorem reads_delimiter (h : c ∈ punctuation) (ho : Bracket.opened? c = none)
    (hc : Bracket.closed? c = none) : Reads (fun d => Css.isSpace d = false) [c, char ' ']
      [.token .start (.delimiter [c]), blank] :=
  (Reads.delimiter h ho hc).append_cons reads_blank trivial

theorem Ink.reads_arguments (i : Ink) :
    Reads (fun d => d = ',' ∨ d = ')') (join ", " i.numerals) i.argumentNodes := by
  have hnum : ∀ r ∈ i.numerals, Reads (fun d => d = ',' ∨ d = ')') r [.token .start (.number r)] := by
    intro r hr
    refine (Reads.numeral (i.numeral_of_mem r hr)).weaken ?_
    rintro d (rfl | rfl) <;> decide
  have h := Reads.intercalate (f := fun r => r) (reads_delimiter (c := ',') (by decide) rfl rfl) (.inl rfl) hnum ?_
  · rwa [List.map_id'] at h
  · intro r hr
    obtain ⟨c, t, rfl, hc⟩ := (i.numeral_of_mem r hr).exists_cons
    exact ⟨c, t, rfl, (classes_of_isDigit hc).1⟩

theorem Ink.reads (i : Ink) : Reads (fun _ => True) i.text [i.node] := by
  have hcall (name : Text) (hn : ∀ d ∈ char 'r' :: name, isNameChar d = true)
      (hu : asciiLower (char 'r' :: name) ≠ "url") :
      Reads (fun _ => True) (char 'r' :: name ++ char '(' :: join ", " i.numerals ++ [char ')'])
        [.function .start (char 'r' :: name) i.argumentNodes true] :=
    Reads.function hn (by decide) hu i.reads_arguments (.inr rfl)
  have htext : i.text = i.function ++ char '(' :: join ", " i.numerals ++ [char ')'] := by
    simp [text, ofString]
  rw [htext, node]
  rcases i.function_eq with h | h <;> rw [h]
  · exact hcall (ofString "gb") (by decide) (by decide)
  · exact hcall (ofString "gba") (by decide) (by decide)

theorem Declaration.reads_value (d : Declaration) : Reads (fun _ => True) d.value d.valueNodes := by
  refine Reads.intercalate (reads_delimiter (c := ',') (by decide) rfl rfl) trivial
    (fun i _ => i.reads) fun i _ => ?_
  obtain ⟨s, hs⟩ := i.text_ends
  exact ⟨char 'r', _, hs, by decide⟩

theorem Name.reads (n : Name) :
    Reads (fun d => d = ' ' ∨ d = ':') n.text [.token .start (.ident n.text)] := by
  obtain ⟨c, s, hs, hc⟩ := n.exists_cons
  have hn : ∀ d ∈ n.text, isNameChar d = true :=
    n.forall_mem_text (fun c hc => (classes_of_mem_letters c hc).2.1) (by decide)
  rw [hs] at hn ⊢
  exact reads_name hn hc

theorem Declaration.exists_cons (d : Declaration) : ∃ c s, d.text = c :: s ∧ c ∈ letters := by
  obtain ⟨c, s, hs, hc⟩ := d.property.exists_cons
  exact ⟨c, _, by rw [text, hs]; rfl, hc⟩

theorem Declaration.reads (d : Declaration) :
    Reads (fun d => Css.isSpace d = false) d.text d.nodes := by
  have hcolon := reads_delimiter (c := ':') (by decide) rfl rfl
  have hend := reads_delimiter (c := ';') (by decide) rfl rfl
  obtain ⟨s, hs⟩ := d.value_ends
  have hvalue := d.reads_value
  rw [hs] at hvalue
  have h := d.property.reads.append_cons ((hcolon.append_cons hvalue (by decide)).append_cons hend trivial)
    (.inr rfl)
  have htext : d.text = d.property.text ++ ([char ':', char ' '] ++ d.value ++ [char ';', char ' ']) := by
    simp [text, ofString]
  rw [htext, hs]
  exact h

theorem Rule.reads (r : Rule) : Reads (fun _ => True) r.text r.nodes := by
  obtain ⟨c, s, hs, hc⟩ := r.selector.exists_cons
  have hsel : Reads (fun d => d = ' ' ∨ d = ':') r.selector.text [.token .start (.ident r.selector.text)] := by
    have hn : ∀ d ∈ r.selector.text, isNameChar d = true :=
      fun d hd => (classes_of_mem_letters d (r.selector.isLetter d hd)).2.1
    rw [hs] at hn ⊢
    exact reads_name hn hc
  have hdecls : Reads (fun d => Css.isSpace d = false) (r.declarations.flatMap Declaration.text)
      (r.declarations.flatMap Declaration.nodes) := by
    refine .flatMap (fun d _ => d.reads) fun d _ => ?_
    obtain ⟨c, s, hs, hc⟩ := d.exists_cons
    exact ⟨c, s, hs, (classes_of_mem_letters c hc).2.2.1⟩
  have hcontent : Reads (fun d => Css.isSpace d = false)
      ([char ' '] ++ r.declarations.flatMap Declaration.text) r.content := by
    refine reads_blank.append hdecls (fun e he => ?_) fun _ _ h => h
    cases hd : r.declarations with
    | nil =>
      rw [hd] at he
      cases he
    | cons d ds =>
      obtain ⟨c, s, hs, hc⟩ := d.exists_cons
      rw [hd, List.flatMap_cons, hs] at he
      exact Option.some.inj he ▸ (classes_of_mem_letters c hc).2.2.1
  have hblock := hcontent.curly (by decide)
  have h := hsel.append_cons (reads_blank.append_cons hblock (by decide)) (.inl rfl)
  have htext : r.text = r.selector.text ++ ([char ' '] ++ (char '\x7b' ::
      ([char ' '] ++ r.declarations.flatMap Declaration.text) ++ [char '\x7d'])) := by
    simp [text, ofString]
  exact htext ▸ h

theorem Rule.exists_cons (r : Rule) : ∃ c s, r.text = c :: s ∧ c ∈ letters := by
  obtain ⟨c, s, hs, hc⟩ := r.selector.exists_cons
  exact ⟨c, _, by rw [text, hs]; rfl, hc⟩

theorem reads_sheet (rules : List Rule) : Reads (fun _ => True) (sheetText rules) (sheetNodes rules) := by
  have hline : Reads (fun d => Css.isSpace d = false) [char '\n'] [newline] := .space (by decide)
  refine Reads.intercalate hline trivial (fun r _ => r.reads) fun r _ => ?_
  obtain ⟨c, s, hs, hc⟩ := r.exists_cons
  exact ⟨c, s, hs, (classes_of_mem_letters c hc).2.2.1⟩

end ColorCensus.Plain
