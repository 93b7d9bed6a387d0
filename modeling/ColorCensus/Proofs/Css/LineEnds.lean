import ColorCensus.Proofs.Css.Composition
import ColorCensus.Proofs.Css.Verdict
import ColorCensus.Tally

namespace ColorCensus.Css

open Text CodePoint

variable {c d : CodePoint} {s t r : Text} {P : List Text}

def lineEnd (c : CodePoint) : CodePoint := if c = '\r' ∨ c = '\x0c' then '\n' else c

def unifyLines : Text → Text
  | [] => []
  | '\r' :: '\n' :: s => '\n' :: unifyLines s
  | c :: s => lineEnd c :: unifyLines s

theorem unifyLines_cons (h : ¬ (c = '\r' ∧ s.head? = some (char '\n'))) :
    unifyLines (c :: s) = lineEnd c :: unifyLines s := by
  rw [unifyLines]
  rintro u rfl rfl
  exact h ⟨rfl, rfl⟩

theorem unifyLines_of_ne (h : c ≠ '\r' ∧ c ≠ '\x0c') : unifyLines (c :: s) = c :: unifyLines s := by
  rw [unifyLines_cons fun hc => h.1 hc.1, lineEnd, if_neg (not_or.mpr h)]

theorem lineEnd_ne_return : lineEnd c ≠ '\r' := by
  unfold lineEnd
  split
  · decide
  · next h => exact (not_or.mp h).1

theorem clean_unifyLines (s : Text) : clean (unifyLines s) = clean s := by
  fun_induction unifyLines s with
  | case1 => rfl
  | case2 s ih =>
    rw [clean_cons fun h => absurd h.1 (by decide), ih]
    rfl
  | case3 c s h ih =>
    rw [clean_cons fun h => lineEnd_ne_return h.1, ih, clean_cons]
    · congr 1
      unfold lineEnd
      split <;> simp_all
    · exact not_head_pair h

theorem read_unifyLines (s : Text) : Node.read (unifyLines s) = Node.read s := by
  rw [Node.read, Node.read, lexemes, lexemes, clean_unifyLines]

theorem lineEnd_eq_iff (h : c ∉ [char '\n', char '\r', char '\x0c']) : lineEnd d = c ↔ d = c := by
  simp only [List.mem_cons, List.not_mem_nil, or_false, not_or] at h
  unfold lineEnd
  split
  · next hd =>
    constructor
    · exact fun hn => absurd hn.symm h.1
    · rintro rfl
      rcases hd with hd | hd
      · exact absurd hd h.2.1
      · exact absurd hd h.2.2
  · rfl

theorem head?_unifyLines (h : c ∉ [char '\n', char '\r', char '\x0c']) :
    (unifyLines s).head? = some c ↔ s.head? = some c := by
  fun_induction unifyLines s with
  | case1 => exact Iff.rfl
  | case2 s =>
    simp only [List.mem_cons, List.not_mem_nil, or_false, not_or] at h
    exact ⟨fun hc => absurd (Option.some.inj hc).symm h.1, fun hc => absurd (Option.some.inj hc).symm h.2.1⟩
  | case3 d s _ =>
    rw [List.head?_cons, List.head?_cons, Option.some.injEq, Option.some.injEq, lineEnd_eq_iff h]

theorem afterComment?_cons (h : ¬ (c = '*' ∧ s.head? = some (char '/'))) :
    afterComment? (c :: s) = afterComment? s := by
  rw [afterComment?]
  rintro t rfl rfl
  exact h ⟨rfl, rfl⟩

theorem afterComment?_unifyLines (s : Text) :
    afterComment? (unifyLines s) = (afterComment? s).map unifyLines := by
  fun_induction unifyLines s with
  | case1 => rfl
  | case2 s ih => exact ih
  | case3 c s _ ih =>
    have hend : lineEnd c = '*' ∧ (unifyLines s).head? = some (char '/') ↔
        c = '*' ∧ s.head? = some (char '/') := by
      rw [lineEnd_eq_iff (by decide), head?_unifyLines (by decide)]
    by_cases hc : c = '*' ∧ s.head? = some (char '/')
    · obtain ⟨rfl, hs⟩ := hc
      obtain ⟨s, rfl⟩ := List.head?_eq_some_iff.mp hs
      rw [unifyLines_of_ne (by decide)]
      rfl
    · rw [afterComment?_cons hc, afterComment?_cons fun h => hc (hend.mp h), ih]

def isSplit (c : CodePoint) (s : Text) : Bool :=
  decide (c = char '"' ∨ c = char '\'') &&
    decide (afterString? c (unifyLines s) ≠ (afterString? c s).map unifyLines)

theorem afterPiece?_unifyLines (h : isSplit c s = false) (he : c ≠ '\\') :
    afterPiece? c (unifyLines s) = (afterPiece? c s).map unifyLines := by
  unfold afterPiece?
  have hstar : (unifyLines s).head? = some (char '*') ↔ s.head? = some (char '*') :=
    head?_unifyLines (by decide)
  by_cases hc : c = '/' ∧ s.head? = some '*'
  · obtain ⟨rfl, hs⟩ := hc
    obtain ⟨s, rfl⟩ := List.head?_eq_some_iff.mp hs
    rw [unifyLines_of_ne (by decide), if_pos ⟨rfl, rfl⟩, if_pos ⟨rfl, rfl⟩]
    exact afterComment?_unifyLines s
  · rw [if_neg hc, if_neg fun h => hc ⟨h.1, hstar.mp h.2⟩]
    by_cases hq : c = '"' ∨ c = '\''
    · rw [if_pos hq, if_pos hq]
      simpa [isSplit, hq] using h
    · rw [if_neg hq, if_neg hq, if_neg he, if_neg he]
      rfl

def afterPiece (c : CodePoint) (s : Text) : Text := (afterPiece? c s).getD s

theorem length_afterPiece_le (c : CodePoint) (s : Text) : (afterPiece c s).length ≤ s.length := by
  rw [afterPiece]
  cases h : afterPiece? c s with
  | none => exact Nat.le_refl _
  | some r => exact afterPiece?_length_le h

def curlyText (c : CodePoint) : Text := if isCurly c then [c] else []

theorem isCurly_of_afterPiece? (h : afterPiece? c s = some r) : isCurly c = false := by
  unfold afterPiece? at h
  split at h
  · next hc =>
    rw [hc.1]
    rfl
  · split at h
    · next hc => rcases hc with rfl | rfl <;> rfl
    · split at h
      · next hc =>
        rw [hc]
        rfl
      · cases h

theorem scanned_piece (c : CodePoint) (s : Text) :
    scanned (c :: s) = curlyText c ++ scanned (afterPiece c s) := by
  rw [afterPiece, curlyText]
  cases h : afterPiece? c s with
  | some r =>
    rw [scanned_cons_of_some h, isCurly_of_afterPiece? h]
    rfl
  | none =>
    cases hc : isCurly c with
    | true => exact scanned_curly hc
    | false => exact scanned_cons_of_none h hc

theorem scanned_unifyLines_escape (s : Text) :
    scanned (unifyLines (char '\\' :: s)) = scanned (unifyLines s.tail) := by
  rw [unifyLines_of_ne (by decide)]
  match s with
  | [] => exact scanned_cons_of_none rfl rfl
  | d :: t =>
    by_cases hd : d = '\r' ∧ t.head? = some (char '\n')
    · obtain ⟨rfl, ht⟩ := hd
      obtain ⟨t, rfl⟩ := List.head?_eq_some_iff.mp ht
      rw [unifyLines, scanned_escape, List.tail_cons, unifyLines_of_ne (by decide)]
      exact (scanned_cons (by decide)).symm
    · rw [unifyLines_cons hd, scanned_escape]
      rfl

theorem scanned_unifyLines_lineEnd (h : c = '\r' ∨ c = '\x0c') (s : Text) :
    scanned (unifyLines (c :: s)) = scanned (unifyLines s) := by
  by_cases hc : c = '\r' ∧ s.head? = some (char '\n')
  · obtain ⟨rfl, hs⟩ := hc
    obtain ⟨s, rfl⟩ := List.head?_eq_some_iff.mp hs
    rw [unifyLines, unifyLines_of_ne (by decide)]
  · rw [unifyLines_cons hc, lineEnd, if_pos h]
    exact scanned_cons (by decide)

theorem scanned_unifyLines_piece (h : isSplit c s = false) :
    scanned (unifyLines (c :: s)) = curlyText c ++ scanned (unifyLines (afterPiece c s)) := by
  by_cases he : c = '\\'
  · subst he
    rw [scanned_unifyLines_escape]
    cases s <;> rfl
  · by_cases hn : c = '\r' ∨ c = '\x0c'
    · rw [scanned_unifyLines_lineEnd hn]
      rcases hn with rfl | rfl <;> rfl
    · rw [unifyLines_of_ne (not_or.mp hn), scanned_piece, afterPiece, afterPiece,
        afterPiece?_unifyLines h he]
      cases afterPiece? c s <;> rfl

def splits (before : Text) : Text → Nat
  | [] => 0
  | c :: s =>
    let after := before ++ curlyText c
    (if isSplit c s ∧ accepts before (unifyLines (c :: s)) ≠ accepts after (unifyLines (afterPiece c s))
      then 1 else 0) + splits after (afterPiece c s)
termination_by s => s.length
decreasing_by exact Nat.lt_succ_of_le (length_afterPiece_le c s)

theorem even_splits_iff (before s : Text) :
    Even (splits before s) ↔ accepts before (unifyLines s) = accepts before s := by
  fun_induction splits before s with
  | case1 => exact ⟨fun _ => rfl, fun _ => Even.zero⟩
  | case2 before c s after ih =>
    have hscan : accepts before (c :: s) = accepts after (afterPiece c s) := by
      rw [accepts, accepts, scanned_piece, List.append_assoc]
    rw [hscan]
    refine even_turn_add_iff ?_ ih
    refine and_iff_right_of_imp fun hne => ?_
    cases hs : isSplit c s with
    | true => rfl
    | false =>
      refine absurd ?_ hne
      rw [accepts, accepts, scanned_unifyLines_piece hs, List.append_assoc]

structure HasPlainLines (s : Text) : Prop where
  feed : char '\x0c' ∉ s
  newline : ∀ t, char '\r' :: t <:+ s → t.head? = some (char '\n')
  escape : ∀ t, ¬ char '\\' :: char '\r' :: t <:+ s

theorem HasPlainLines.suffix (h : HasPlainLines s) (ht : t <:+ s) : HasPlainLines t where
  feed hf := h.feed (ht.mem hf)
  newline u hu := h.newline u (hu.trans ht)
  escape u hu := h.escape u (hu.trans ht)

theorem HasPlainLines.tail (h : HasPlainLines (c :: s)) : HasPlainLines s := h.suffix (List.suffix_cons c s)

theorem HasPlainLines.unifyLines_cons (h : HasPlainLines (c :: s)) (hc : c ≠ '\r') :
    unifyLines (c :: s) = c :: unifyLines s := by
  refine unifyLines_of_ne ⟨hc, ?_⟩
  rintro rfl
  exact h.feed (List.mem_cons_self ..)

theorem afterString?_newline {quote : CodePoint} (h : char '\n' ≠ quote) :
    afterString? quote (char '\n' :: s) = none := by
  rw [afterString?.eq_def]
  exact if_neg h

theorem afterString?_unifyLines {quote : CodePoint} (hq : quote = '"' ∨ quote = '\'') (h : HasPlainLines s) :
    afterString? quote (unifyLines s) = (afterString? quote s).map unifyLines := by
  have hb : char '\\' ≠ quote := by rcases hq with rfl | rfl <;> decide
  have hn : char '\n' ≠ quote := by rcases hq with rfl | rfl <;> decide
  have hr : quote ≠ '\r' := by rcases hq with rfl | rfl <;> decide
  fun_induction afterString? quote s with
  | case1 => rfl
  | case2 s =>
    rw [h.unifyLines_cons hr, afterString?.eq_def]
    exact if_pos rfl
  | case3 => exact if_neg hb
  | case4 d t _ ih =>
    have hd : d ≠ '\r' := by
      rintro rfl
      exact h.escape t List.suffix_rfl
    rw [h.unifyLines_cons (by decide), h.tail.unifyLines_cons hd, afterString?_escape hb, ih h.tail.tail]
  | case5 s =>
    rw [h.unifyLines_cons (by decide), afterString?_newline hn]
    rfl
  | case6 c s hc hb' hn' ih =>
    by_cases hcr : c = '\r'
    · subst hcr
      obtain ⟨t, rfl⟩ := List.head?_eq_some_iff.mp (h.newline s List.suffix_rfl)
      rw [unifyLines, afterString?_newline hn, afterString?_newline hn]
      rfl
    · rw [h.unifyLines_cons hcr, afterString?_cons ⟨hc, hb', hn'⟩, ih h.tail]

theorem afterComment?_suffix (h : afterComment? s = some r) : r <:+ s := by
  fun_induction afterComment? s with
  | case1 s =>
    obtain rfl := Option.some.inj h
    exact (List.suffix_cons _ s).trans (List.suffix_cons _ _)
  | case2 c s _ ih => exact (ih h).trans (List.suffix_cons c s)
  | case3 => cases h

theorem afterString?_suffix {quote : CodePoint} (h : afterString? quote s = some r) : r <:+ s := by
  fun_induction afterString? quote s with
  | case2 s =>
    obtain rfl := Option.some.inj h
    exact List.suffix_cons _ s
  | case4 d t _ ih => exact ((ih h).trans (List.suffix_cons d t)).trans (List.suffix_cons _ _)
  | case6 c s _ _ _ ih => exact (ih h).trans (List.suffix_cons c s)
  | _ => cases h

theorem afterPiece_suffix (c : CodePoint) (s : Text) : afterPiece c s <:+ s := by
  rw [afterPiece]
  cases h : afterPiece? c s with
  | none => exact List.suffix_rfl
  | some r =>
    unfold afterPiece? at h
    split at h
    · exact (afterComment?_suffix h).trans (List.drop_suffix 1 s)
    split at h
    · exact afterString?_suffix h
    split at h
    · cases s with
      | nil => cases h
      | cons d t => exact Option.some.inj h ▸ List.suffix_cons d t
    · cases h

theorem splits_eq_zero (before : Text) (h : HasPlainLines s) : splits before s = 0 := by
  fun_induction splits before s with
  | case1 => rfl
  | case2 before c s after ih =>
    have hs : isSplit c s = false := by
      rw [isSplit, Bool.and_eq_false_iff]
      by_cases hq : c = '"' ∨ c = '\''
      · exact .inr (by simp [afterString?_unifyLines hq h.tail])
      · exact .inl (decide_eq_false hq)
    rw [if_neg (by simp [hs]), ih (h.tail.suffix (afterPiece_suffix c s))]

def outcome (P : List Text) (s : Text) : Extraction :=
  match parse s with
  | .error f => ⟨[], some f⟩
  | .ok rules => extract P rules

theorem addStylesheet_eq (t : Tally) (P : List Text) (s : Text) :
    t.addStylesheet P s = (t.addExtraction (outcome P s), (outcome P s).fault) := by
  rw [Tally.addStylesheet, outcome]
  cases parse s <;> rfl

def unchecked (P : List Text) (s : Text) : Extraction :=
  match (Rule.readAll (Node.read s)).findSome? Rule.fault? with
  | some f => ⟨[], some f⟩
  | none => extract P (Rule.readAll (Node.read s))

theorem outcome_eq (P : List Text) (s : Text) : outcome P s =
    match imbalance s with
    | some i => ⟨[], some (.braces i)⟩
    | none => unchecked P s := by
  rw [outcome, parse]
  cases imbalance s with
  | some i => rfl
  | none =>
    rw [unchecked]
    cases (Rule.readAll (Node.read s)).findSome? Rule.fault? <;> rfl

theorem unchecked_unifyLines (P : List Text) (s : Text) : unchecked P (unifyLines s) = unchecked P s := by
  rw [unchecked, unchecked, read_unifyLines]

def Extraction.Agrees (x y : Extraction) : Prop :=
  x.declarations = y.declarations ∧ x.fault.isSome = y.fault.isSome

def Extraction.IsRefusal (x : Extraction) : Prop := x.declarations = [] ∧ x.fault.isSome = true

theorem Extraction.agrees_refusal_iff {x : Extraction} {f : SyntaxFault} :
    x.Agrees ⟨[], some f⟩ ↔ x.IsRefusal := Iff.rfl

theorem Extraction.refusal_agrees_iff {x : Extraction} {f : SyntaxFault} :
    (Extraction.mk [] (some f)).Agrees x ↔ x.IsRefusal := and_congr eq_comm eq_comm

theorem agrees_iff_accepts (P : List Text) (s : Text) :
    (outcome P s).Agrees (outcome P (unifyLines s)) ↔
      accepts [] (unifyLines s) = accepts [] s ∨ (unchecked P s).IsRefusal := by
  rw [Bool.eq_iff_iff, ← imbalance_eq_none_iff, ← imbalance_eq_none_iff, outcome_eq, outcome_eq,
    unchecked_unifyLines]
  cases imbalance s with
  | none =>
    cases imbalance (unifyLines s) with
    | none => simp [Extraction.Agrees]
    | some j => simp [Extraction.agrees_refusal_iff]
  | some i =>
    cases imbalance (unifyLines s) with
    | none => simp [Extraction.refusal_agrees_iff]
    | some j => simp [Extraction.Agrees]

theorem agrees_of_hasPlainLines (P : List Text) (h : HasPlainLines s) :
    (outcome P s).Agrees (outcome P (unifyLines s)) := by
  refine (agrees_iff_accepts P s).mpr (.inl ((even_splits_iff [] s).mp ?_))
  rw [splits_eq_zero [] h]
  exact Even.zero

theorem outcome_agrees_iff (P : List Text) (s : Text) :
    (outcome P s).Agrees (outcome P (unifyLines s)) ↔
      Even (splits [] s) ∨ (unchecked P s).IsRefusal := by
  rw [even_splits_iff]
  exact agrees_iff_accepts P s

theorem outcome_disagrees :
    outcome ["b"] "a\x7bb:\"\\\r\n\x7d\"\x7d" = ⟨[], some (.braces .unexpected)⟩ ∧
    outcome ["b"] (unifyLines "a\x7bb:\"\\\r\n\x7d\"\x7d") = ⟨[⟨"b", "\"\x7d\""⟩], none⟩ ∧
    outcome ["b"] "a\x7bb:1;c:\"\r\x7b\"\x7d" = ⟨[⟨"b", "1"⟩], none⟩ ∧
    outcome ["b"] (unifyLines "a\x7bb:1;c:\"\r\x7b\"\x7d") = ⟨[], some (.braces .missing)⟩ := by
  decide +kernel

end ColorCensus.Css
