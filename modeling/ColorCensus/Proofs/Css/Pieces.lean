import ColorCensus.Proofs.Css.Gap
import ColorCensus.Proofs.Css.LineEnds

namespace ColorCensus.Css

open Text CodePoint

variable {c quote : CodePoint} {s t u body plain : Text} {depth : ℕ}

inductive IsStringBody (quote : CodePoint) : Text → Prop where
  | nil : IsStringBody quote []
  | escape (c : CodePoint) {s : Text} (hs : IsStringBody quote s) : IsStringBody quote (char '\\' :: c :: s)
  | char {c : CodePoint} {s : Text} (hq : c ≠ quote) (he : c ≠ char '\\') (hn : c ≠ char '\n')
    (hs : IsStringBody quote s) : IsStringBody quote (c :: s)

inductive InPieces : Text → Text → Prop where
  | nil : InPieces [] []
  | comment {body s plain : Text} (hb : ¬ ofString "*/" <:+: body) (hs : InPieces s plain) :
    InPieces ("/*" ++ body ++ "*/" ++ s) plain
  | string {quote : CodePoint} {body s plain : Text} (hq : quote = char '"' ∨ quote = char '\'')
    (hb : IsStringBody quote body) (hs : InPieces s plain) : InPieces (quote :: body ++ quote :: s) plain
  | escape (c : CodePoint) {s plain : Text} (hs : InPieces s plain) : InPieces (char '\\' :: c :: s) plain
  | plain {c : CodePoint} {s plain : Text} (hq : c ≠ char '"' ∧ c ≠ char '\'') (he : c ≠ char '\\')
    (ho : ¬ (c = char '/' ∧ s.head? = some (char '*'))) (hs : InPieces s plain) : InPieces (c :: s) (c :: plain)

theorem afterComment?_append (hb : ¬ ofString "*/" <:+: body) (s : Text) :
    afterComment? (body ++ char '*' :: char '/' :: s) = some s := by
  induction body with
  | nil => rfl
  | cons c body ih =>
    obtain ⟨hc, hbody⟩ := commentEnd_later hb s
    rw [List.cons_append, afterComment?_cons hc, ih hbody]

theorem afterString?_body (hq : quote ≠ char '\\') (hb : IsStringBody quote body) (s : Text) :
    afterString? quote (body ++ quote :: s) = some s := by
  induction hb with
  | nil =>
    rw [List.nil_append, afterString?.eq_def]
    exact if_pos rfl
  | escape c _ ih => rw [List.cons_append, List.cons_append, afterString?_escape (Ne.symm hq), ih]
  | char hc he hn _ ih => rw [List.cons_append, afterString?_cons ⟨hc, he, hn⟩, ih]

theorem bare_of_inPieces (h : InPieces s plain) : bare s = plain := by
  induction h with
  | nil => exact bare_nil
  | @comment body s plain hb _ ih =>
    have hopen : ofString "/*" ++ body ++ "*/" ++ s = char '/' :: char '*' :: (body ++ char '*' :: char '/' :: s) := by
      simp [ofString]
    have hpiece : afterPiece? '/' (char '*' :: (body ++ char '*' :: char '/' :: s)) = some s := by
      rw [afterPiece?, if_pos ⟨rfl, rfl⟩, List.drop_succ_cons, List.drop_zero, afterComment?_append hb]
    rw [hopen, bare_cons_of_some hpiece, ih]
  | @string quote body s plain hq hb _ ih =>
    have hslash : ¬ (quote = '/' ∧ (body ++ quote :: s).head? = some '*') := by
      rintro ⟨rfl, -⟩
      exact absurd hq (by decide)
    have hescape : quote ≠ char '\\' := by
      rintro rfl
      exact absurd hq (by decide)
    have hpiece : afterPiece? quote (body ++ quote :: s) = some s := by
      rw [afterPiece?, if_neg hslash, if_pos hq, afterString?_body hescape hb]
    rw [List.cons_append, bare_cons_of_some hpiece, ih]
  | @escape c s plain _ ih =>
    have hpiece : afterPiece? '\\' (c :: s) = some s := by simp [afterPiece?]
    rw [bare_cons_of_some hpiece, ih]
  | @plain c s plain hq he ho _ ih =>
    have hpiece : afterPiece? c s = none := by
      rw [afterPiece?, if_neg, if_neg (not_or.mpr hq), if_neg he]
      exact ho
    rw [bare_cons_of_none hpiece, ih]

inductive IsBalanced : Text → Prop where
  | nil : IsBalanced []
  | other {c : CodePoint} {s : Text} (hc : isCurly c = false) (hs : IsBalanced s) : IsBalanced (c :: s)
  | block {s t : Text} (hs : IsBalanced s) (ht : IsBalanced t) :
    IsBalanced (char '\x7b' :: (s ++ char '\x7d' :: t))

theorem imbalanceFrom_opening : imbalanceFrom depth (char '\x7b' :: s) = imbalanceFrom (depth + 1) s := by
  simp [imbalanceFrom]

theorem imbalanceFrom_closing : imbalanceFrom (depth + 1) (char '\x7d' :: s) = imbalanceFrom depth s := by
  simp [imbalanceFrom]

theorem imbalanceFrom_zero_closing : imbalanceFrom 0 (char '\x7d' :: s) = some .unexpected := by
  simp [imbalanceFrom]

theorem curly_cases (c : CodePoint) : c = char '\x7b' ∨ c = char '\x7d' ∨ isCurly c = false := by
  by_cases ho : c = char '\x7b'
  · exact .inl ho
  · by_cases hc : c = char '\x7d'
    · exact .inr (.inl hc)
    · exact .inr (.inr (by simp [isCurly, Bracket.opening, Bracket.closing, ho, hc]))

theorem IsBalanced.imbalanceFrom_append (h : IsBalanced s) (depth : ℕ) (t : Text) :
    imbalanceFrom depth (s ++ t) = imbalanceFrom depth t := by
  induction h generalizing depth t with
  | nil => rfl
  | other hc _ ih => rw [List.cons_append, imbalanceFrom_cons hc, ih]
  | block _ _ ihs iht =>
    rw [List.cons_append, List.append_assoc, imbalanceFrom_opening, ihs, List.cons_append, imbalanceFrom_closing, iht]

def IsClosing : ℕ → Text → Prop
  | 0, s => IsBalanced s
  | depth + 1, s => ∃ u v, s = u ++ char '\x7d' :: v ∧ IsBalanced u ∧ IsClosing depth v

theorem IsClosing.other (hc : isCurly c = false) (h : IsClosing depth s) : IsClosing depth (c :: s) := by
  cases depth with
  | zero => exact IsBalanced.other hc h
  | succ depth =>
    obtain ⟨u, v, rfl, hu, hv⟩ := h
    exact ⟨c :: u, v, rfl, .other hc hu, hv⟩

theorem IsClosing.block (hs : IsBalanced s) (h : IsClosing depth t) :
    IsClosing depth (char '\x7b' :: (s ++ char '\x7d' :: t)) := by
  cases depth with
  | zero => exact IsBalanced.block hs h
  | succ depth =>
    obtain ⟨u, v, rfl, hu, hv⟩ := h
    exact ⟨char '\x7b' :: (s ++ char '\x7d' :: u), v, by simp, .block hs hu, hv⟩

theorem isClosing_of_imbalanceFrom (h : imbalanceFrom depth s = none) : IsClosing depth s := by
  induction s generalizing depth with
  | nil =>
    cases depth with
    | zero => exact IsBalanced.nil
    | succ depth => cases h
  | cons c s ih =>
    rcases curly_cases c with rfl | rfl | hc
    · rw [imbalanceFrom_opening] at h
      obtain ⟨u, v, rfl, hu, hv⟩ := ih h
      exact .block hu hv
    · cases depth with
      | zero =>
        rw [imbalanceFrom_zero_closing] at h
        cases h
      | succ depth =>
        rw [imbalanceFrom_closing] at h
        exact ⟨[], s, rfl, .nil, ih h⟩
    · rw [imbalanceFrom_cons hc] at h
      exact .other hc (ih h)

theorem imbalanceFrom_eq_none_iff : imbalanceFrom 0 s = none ↔ IsBalanced s := by
  refine ⟨isClosing_of_imbalanceFrom, fun h => ?_⟩
  have hs := h.imbalanceFrom_append 0 []
  rwa [List.append_nil] at hs

theorem exists_prefix_cons {P : Text → Prop} :
    (∃ t, t <+: c :: s ∧ P t) ↔ P [] ∨ ∃ t, t <+: s ∧ P (c :: t) := by
  simp only [List.prefix_cons_iff]
  constructor
  · rintro ⟨t, rfl | ⟨t, rfl, ht⟩, hp⟩
    · exact .inl hp
    · exact .inr ⟨t, ht, hp⟩
  · rintro (hp | ⟨t, ht, hp⟩)
    · exact ⟨[], .inl rfl, hp⟩
    · exact ⟨c :: t, .inr ⟨t, rfl, ht⟩, hp⟩

theorem imbalanceFrom_eq_unexpected_iff : imbalanceFrom depth s = some .unexpected ↔
    ∃ t, t <+: s ∧ depth + t.count (char '\x7b') < t.count (char '\x7d') := by
  induction s generalizing depth with
  | nil => cases depth <;> simp [imbalanceFrom]
  | cons c s ih =>
    rw [exists_prefix_cons]
    simp only [List.count_nil, Nat.not_lt_zero, false_or]
    rcases curly_cases c with rfl | rfl | hc
    · rw [imbalanceFrom_opening, ih]
      refine exists_congr fun t => and_congr_right fun _ => ?_
      rw [List.count_cons_self, List.count_cons_of_ne (by decide)]
      omega
    · cases depth with
      | zero =>
        rw [imbalanceFrom_zero_closing]
        exact iff_of_true rfl ⟨[], List.nil_prefix, by simp⟩
      | succ depth =>
        rw [imbalanceFrom_closing, ih]
        refine exists_congr fun t => and_congr_right fun _ => ?_
        rw [List.count_cons_self, List.count_cons_of_ne (by decide)]
        omega
    · have hne : c ≠ char '\x7b' ∧ c ≠ char '\x7d' := by
        constructor <;> rintro rfl <;> cases hc
      rw [imbalanceFrom_cons hc, ih]
      refine exists_congr fun t => and_congr_right fun _ => ?_
      rw [List.count_cons_of_ne hne.1, List.count_cons_of_ne hne.2]

def Overruns (s : Text) : Prop := ∃ t, t <+: s ∧ t.count (char '\x7b') < t.count (char '\x7d')

theorem imbalanceFrom_zero_eq_unexpected_iff : imbalanceFrom 0 s = some .unexpected ↔ Overruns s := by
  rw [imbalanceFrom_eq_unexpected_iff, Overruns]
  simp only [Nat.zero_add]

theorem imbalance_of_inPieces (h : InPieces s plain) :
    (imbalance s = none ↔ IsBalanced plain) ∧
      ∀ i, imbalance s = some i →
        (i.message = "unexpected '\x7d'" ↔ Overruns plain) ∧ (i.message = "missing '\x7d'" ↔ ¬ Overruns plain) := by
  rw [imbalance, bare_of_inPieces h]
  refine ⟨imbalanceFrom_eq_none_iff, fun i hi => ?_⟩
  have hover := imbalanceFrom_zero_eq_unexpected_iff (s := plain)
  rw [hi, Option.some.injEq] at hover
  rw [← hover]
  cases i <;> decide

theorem imbalance_of_inPieces_quoted :
    let s : Text := "/*\x7d*/\"\\\"\x7b\"\\\x7d\x7d\x7b"
    let plain : Text := "\x7d\x7b"
    InPieces s plain ∧ (imbalance s = none ↔ IsBalanced plain) ∧
      ∀ i, imbalance s = some i →
        (i.message = "unexpected '\x7d'" ↔ Overruns plain) ∧ (i.message = "missing '\x7d'" ↔ ¬ Overruns plain) := by
  intro s plain
  have hword : InPieces plain plain :=
    .plain (by decide) (by decide) (by decide) (.plain (by decide) (by decide) (by decide) .nil)
  have hbody : IsStringBody (char '"') [char '\\', char '"', char '\x7b'] :=
    .escape _ (.char (by decide) (by decide) (by decide) .nil)
  have hs : InPieces s plain := @InPieces.comment "\x7d" _ _ (by decide) (.string (.inl rfl) hbody (.escape _ hword))
  exact ⟨hs, imbalance_of_inPieces hs⟩

end ColorCensus.Css
