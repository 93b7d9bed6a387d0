import ColorCensus.Proofs.Css.Lexing
import ColorCensus.Proofs.Css.Locality
import ColorCensus.Proofs.Text.Position

namespace ColorCensus.Css

open Text Decimal CodePoint Read

variable {c d : CodePoint} {s t u : Text} {q : CodePoint → Bool} {p : Position}

def IsFence (c : CodePoint) : Prop := c = char ';' ∨ c = Bracket.curly.closing

instance : DecidablePred IsFence := fun _ => inferInstanceAs (Decidable (_ ∨ _))

inductive Fenced : Text → Prop where
  | last (c : CodePoint) (h : IsFence c) : Fenced [c]
  | cons (c : CodePoint) (s : Text) (h : Fenced s) : Fenced (c :: s)

theorem IsFence.classes (h : IsFence c) :
    isNameStart c = false ∧ c.isDigit = false ∧ isHex c = false ∧ c ≠ char '-' ∧ c ≠ char '\\' ∧
      c ≠ char '+' ∧ c ≠ char '.' ∧ c ≠ char '?' := by
  rcases h with rfl | rfl <;> decide

theorem startsIdentifier_minus : startsIdentifier (char '-' :: s) =
    (startsEscape s || s.head?.any fun c => isNameStart c || c == char '-') := by
  cases s <;> rfl

theorem startsIdentifier_cons (h : c ≠ char '-') :
    startsIdentifier (c :: s) = (isNameStart c || startsEscape (c :: s)) := by
  rw [startsIdentifier.eq_def]
  split
  · next heq => cases heq
  · next heq => exact absurd (List.cons.inj heq).1 h
  · next heq =>
    obtain ⟨rfl, rfl⟩ := List.cons.inj heq
    rfl

theorem startsRange_of_head? (h : s.head? ≠ some (char '+')) : startsRange (c :: s) = false := by
  rw [startsRange.eq_def]
  split
  · next heq =>
    obtain rfl := (List.cons.inj heq).2
    exact absurd rfl h
  · rfl

theorem mantissaLength_of_point (h : s.drop (digitsLength s) = char '.' :: u) :
    mantissaLength s =
      if digitsLength u = 0 then digitsLength s else digitsLength s + 1 + digitsLength u := by
  rw [mantissaLength, h]
  rfl

theorem mantissaLength_of_no_point (h : (s.drop (digitsLength s)).head? ≠ some (char '.')) :
    mantissaLength s = digitsLength s := by
  rw [mantissaLength]
  split
  · next heq => exact absurd (heq ▸ rfl) h
  · rfl

namespace Fenced

theorem append_singleton (h : IsFence d) (s : Text) : Fenced (s ++ [d]) := by
  induction s with
  | nil => exact .last d h
  | cons c s ih => exact .cons c (s ++ [d]) ih

theorem ne_nil (h : Fenced s) : s ≠ [] := by
  cases h <;> exact List.cons_ne_nil _ _

theorem of_cons_of_not_isFence (h : Fenced (c :: s)) (hc : ¬ IsFence c) : Fenced s := by
  cases h with
  | last c h => exact absurd h hc
  | cons c s h => exact h

theorem drop (h : Fenced s) {n : ℕ} (hn : n < s.length) : Fenced (s.drop n) := by
  induction n generalizing s with
  | zero => exact h
  | succ n ih =>
    cases h with
    | last c h => exact absurd hn (by simp)
    | cons c s h => exact ih h (Nat.lt_of_succ_lt_succ hn)

theorem startsLine_append (h : Fenced s) (t : Text) : startsLine (s ++ t) = startsLine s :=
  Css.startsLine_append h.ne_nil t

theorem startsEscape_append (h : Fenced s) (t : Text) : startsEscape (s ++ t) = startsEscape s := by
  cases h with
  | last c h =>
    have hb := h.classes.2.2.2.2.1
    rw [List.cons_append, startsEscape_eq_false hb, startsEscape_eq_false hb]
  | cons c s h =>
    by_cases hb : c = '\\'
    · subst hb
      exact congrArg (!·) (h.startsLine_append t)
    · rw [List.cons_append, startsEscape_eq_false hb, startsEscape_eq_false hb]

theorem startsIdentifier_append (h : Fenced s) (t : Text) :
    startsIdentifier (s ++ t) = startsIdentifier s := by
  cases h with
  | last c h =>
    obtain ⟨hn, -, -, hm, hb, -⟩ := h.classes
    rw [List.cons_append, startsIdentifier_eq_false hm hn hb, startsIdentifier_eq_false hm hn hb]
  | cons c s h =>
    have he := (Fenced.cons c s h).startsEscape_append t
    rw [List.cons_append] at he ⊢
    by_cases hm : c = '-'
    · subst hm
      rw [startsIdentifier_minus, startsIdentifier_minus, h.startsEscape_append,
        List.head?_append_of_ne_nil _ h.ne_nil]
    · rw [startsIdentifier_cons hm, startsIdentifier_cons hm, he]

theorem startsRange_append (h : Fenced s) (t : Text) :
    startsRange (c :: (s ++ t)) = startsRange (c :: s) := by
  cases h with
  | last d h =>
    have hp (u : Text) : startsRange (c :: d :: u) = false :=
      startsRange_of_head? fun hp => h.classes.2.2.2.2.2.1 (Option.some.inj hp)
    rw [List.cons_append, hp, hp]
  | cons d s h =>
    obtain ⟨e, s, rfl⟩ := List.exists_cons_of_ne_nil h.ne_nil
    by_cases hd : d = '+'
    · subst hd
      rfl
    · have hp (u : Text) : startsRange (c :: d :: u) = false :=
        startsRange_of_head? fun hp => hd (Option.some.inj hp)
      rw [List.cons_append, hp, hp]

theorem startsWith_append (h : Fenced s) (hu : ∀ c ∈ u, ¬ IsFence c) (t : Text) :
    startsWith u (s ++ t) = startsWith u s := by
  induction u generalizing s with
  | nil => rfl
  | cons c u ih =>
    obtain ⟨hc, hu⟩ := List.forall_mem_cons.mp hu
    cases h with
    | last d h =>
      have hd : (c == d) = false := beq_eq_false_iff_ne.mpr fun hd => hc (hd ▸ h)
      simp only [startsWith, List.cons_append, List.isPrefixOf_cons_cons, hd, Bool.false_and]
    | cons d s h =>
      have ih := ih h hu
      simp only [startsWith] at ih
      simp only [startsWith, List.cons_append, List.isPrefixOf_cons_cons, ih]

theorem takeWhile_append (h : Fenced s) (hq : ∀ c, IsFence c → q c = false) (t : Text) :
    (s ++ t).takeWhile q = s.takeWhile q := by
  induction h with
  | last c h => rw [List.cons_append, List.takeWhile_cons_of_neg, List.takeWhile_cons_of_neg] <;> simp [hq c h]
  | cons c s h ih => rw [List.cons_append, List.takeWhile_cons, List.takeWhile_cons, ih]

theorem length_takeWhile_lt (h : Fenced s) (hq : ∀ c, IsFence c → q c = false) :
    (s.takeWhile q).length < s.length := by
  induction h with
  | last c h => simp [hq c h]
  | cons c s h ih =>
    rw [List.takeWhile_cons]
    split
    · exact Nat.succ_lt_succ ih
    · simp

theorem digitsLength_append (h : Fenced s) (t : Text) : digitsLength (s ++ t) = digitsLength s :=
  congrArg List.length (h.takeWhile_append (fun _ hc => hc.classes.2.1) t)

theorem digitsLength_lt (h : Fenced s) : digitsLength s < s.length :=
  h.length_takeWhile_lt fun _ hc => hc.classes.2.1

theorem signLength_append (h : Fenced s) (t : Text) : signLength (s ++ t) = signLength s := by
  obtain ⟨c, s, rfl⟩ := List.exists_cons_of_ne_nil h.ne_nil
  rfl

theorem signLength_lt (h : Fenced s) : signLength s < s.length := by
  cases h with
  | last c h =>
    obtain ⟨-, -, -, hm, -, hp, -⟩ := h.classes
    simp [signLength, hm, hp]
  | cons c s h =>
    have hl := List.length_pos_iff.mpr h.ne_nil
    rw [signLength, List.length_cons]
    split <;> omega

theorem mantissaLength_append (h : Fenced s) (t : Text) :
    mantissaLength (s ++ t) = mantissaLength s := by
  have hf := h.drop h.digitsLength_lt
  have hd : (s ++ t).drop (digitsLength (s ++ t)) = s.drop (digitsLength s) ++ t := by
    rw [h.digitsLength_append, List.drop_append_of_le_length h.digitsLength_lt.le]
  by_cases hp : (s.drop (digitsLength s)).head? = some (char '.')
  · obtain ⟨u, hu⟩ := List.head?_eq_some_iff.mp hp
    rw [hu] at hf hd
    rw [List.cons_append] at hd
    rw [mantissaLength_of_point hd, mantissaLength_of_point hu, h.digitsLength_append,
      (hf.of_cons_of_not_isFence (by decide)).digitsLength_append]
  · rw [mantissaLength_of_no_point hp, mantissaLength_of_no_point, h.digitsLength_append]
    rwa [hd, List.head?_append_of_ne_nil _ hf.ne_nil]

theorem mantissaLength_lt (h : Fenced s) : mantissaLength s < s.length := by
  have hd := h.digitsLength_lt
  have hf := h.drop hd
  by_cases hp : (s.drop (digitsLength s)).head? = some (char '.')
  · obtain ⟨u, hu⟩ := List.head?_eq_some_iff.mp hp
    rw [hu] at hf
    have ht := (hf.of_cons_of_not_isFence (by decide)).digitsLength_lt
    have hl := congrArg List.length hu
    rw [List.length_drop, List.length_cons] at hl
    rw [mantissaLength_of_point hu]
    split <;> omega
  · rwa [mantissaLength_of_no_point hp]

theorem exponentLength_append (h : Fenced s) (t : Text) :
    exponentLength (s ++ t) = exponentLength s := by
  cases h with
  | last c h =>
    have hc : ¬ (c = 'e' ∨ c = 'E') := by
      rintro (rfl | rfl) <;> exact absurd h (by decide)
    rw [List.cons_append, exponentLength, exponentLength, if_neg fun h => hc h.1,
      if_neg fun h => hc h.1]
  | cons c s h =>
    have hs := h.signLength_lt
    rw [List.cons_append, exponentLength, exponentLength, h.signLength_append,
      List.drop_append_of_le_length hs.le, (h.drop hs).digitsLength_append]

theorem exponentLength_lt (h : Fenced s) : exponentLength s < s.length := by
  obtain ⟨c, s, rfl⟩ := List.exists_cons_of_ne_nil h.ne_nil
  rw [exponentLength]
  split
  · next hc =>
    have hs := h.of_cons_of_not_isFence (by rcases hc.1 with rfl | rfl <;> decide)
    have hl := (hs.drop hs.signLength_lt).digitsLength_lt
    rw [List.length_drop] at hl
    rw [List.length_cons]
    omega
  · exact Nat.succ_pos _

theorem literalLength_append (h : Fenced s) (t : Text) :
    literalLength (s ++ t) = literalLength s := by
  have hs := h.signLength_lt
  have hf := h.drop hs
  have hm := hf.mantissaLength_lt
  rw [List.length_drop] at hm
  have hl : signLength s + mantissaLength (s.drop (signLength s)) < s.length := by omega
  unfold literalLength
  dsimp only
  rw [h.signLength_append, List.drop_append_of_le_length hs.le, hf.mantissaLength_append,
    List.drop_append_of_le_length hl.le, (h.drop hl).exponentLength_append]

theorem literalLength_lt (h : Fenced s) : literalLength s < s.length := by
  have hs := h.signLength_lt
  have hf := h.drop hs
  have hm := hf.mantissaLength_lt
  rw [List.length_drop] at hm
  have hl : signLength s + mantissaLength (s.drop (signLength s)) < s.length := by omega
  have he := (h.drop hl).exponentLength_lt
  rw [List.length_drop] at he
  unfold literalLength
  dsimp only
  split <;> omega

theorem run_rest (h : Fenced s) (hq : ∀ c, IsFence c → q c = false) (n : ℕ) :
    Fenced (run n q s).rest := by
  induction h generalizing n with
  | last c h =>
    cases n with
    | zero => exact .last c h
    | succ n =>
      have he : (run (n + 1) q [c]).rest = [c] := by simp [run, takeRun, hq c h]
      rw [he]
      exact .last c h
  | cons c s h ih =>
    cases n with
    | zero => exact .cons c s h
    | succ n =>
      rw [run, takeRun]
      split
      · exact ih n
      · exact .cons c s h

end Fenced

theorem readUnit_of_head? (text : Text) (hi : startsIdentifier s = false)
    (hp : s.head? ≠ some (char '%')) : readUnit text s = ⟨.number text, 0, s⟩ := by
  unfold readUnit
  rw [if_neg (by simp [hi])]
  split
  · exact absurd rfl hp
  · rfl

theorem readUnit_percent (text : Text) (hi : startsIdentifier (char '%' :: s) = false) :
    readUnit text (char '%' :: s) = (Read.mk (.percentage text) 0 s).widen 1 := by
  rw [readUnit, if_neg (by simp [hi])]
  rfl

theorem readUnit_local (text : Text) (h : Fenced s) : Local (readUnit text) s := by
  have hi (t : Text) : startsIdentifier (s ++ t) = startsIdentifier s := h.startsIdentifier_append t
  cases hs : startsIdentifier s with
  | true =>
    have he : ∀ u, startsIdentifier u = true → readUnit text u = (readName u).map (.dimension text) :=
      fun u hu => if_pos hu
    exact ((readName_local s).map _).of_eq (he s hs) fun _ t => he _ ((hi t).trans hs)
  | false =>
    by_cases hp : s.head? = some (char '%')
    · obtain ⟨s, rfl⟩ := List.head?_eq_some_iff.mp hp
      exact (Local.pure s).cons (readUnit_percent text hs)
        fun _ t => readUnit_percent text ((hi t).trans hs)
    · refine (Local.pure s).of_eq (readUnit_of_head? text hs hp) fun _ t => ?_
      refine readUnit_of_head? text ((hi t).trans hs) ?_
      rwa [List.head?_append_of_ne_nil _ h.ne_nil]

theorem readRangeEnd_of_head? (first : Text) (h : s.head? ≠ some (char '-')) :
    readRangeEnd first s = ⟨.unicodeRange (ofHex first) (ofHex first), 0, s⟩ := by
  unfold readRangeEnd
  split
  · exact absurd rfl h
  · rfl

theorem readRangeEnd_local (first : Text) (h : Fenced s) : Local (readRangeEnd first) s := by
  by_cases hm : s.head? = some (char '-')
  · obtain ⟨s, rfl⟩ := List.head?_eq_some_iff.mp hm
    have hs := h.of_cons_of_not_isFence (by decide)
    obtain ⟨d, s, rfl⟩ := List.exists_cons_of_ne_nil hs.ne_nil
    by_cases hd : isHex d = true
    · have he : ∀ u, readRangeEnd first (char '-' :: d :: u) = ((Read.run 6 isHex (d :: u)).map
          fun last => .unicodeRange (ofHex first) (ofHex last)).widen 1 := fun u => if_pos hd
      exact ((run_local 6 isHex (d :: s)).map _).cons (he s) fun _ t => he (s ++ t)
    · have he : ∀ u, readRangeEnd first (char '-' :: d :: u) =
          ⟨.unicodeRange (ofHex first) (ofHex first), 0, char '-' :: d :: u⟩ := fun u => if_neg hd
      exact (Local.pure _).of_eq (he s) fun _ t => he (s ++ t)
  · refine (Local.pure s).of_eq (readRangeEnd_of_head? first hm) fun _ t => ?_
    exact readRangeEnd_of_head? first (by rwa [List.head?_append_of_ne_nil _ h.ne_nil])

def readRangeRest (first s : Text) : Read Token :=
  if (run (6 - first.length) (· == '?') s).value = [] then readRangeEnd first s
  else (run (6 - first.length) (· == '?') s).map fun marks =>
    .unicodeRange (ofHex (first ++ marks.map fun _ => '0')) (ofHex (first ++ marks.map fun _ => 'F'))

theorem readRange_eq (s : Text) : readRange s =
    (readRangeRest (run 6 isHex s).value (run 6 isHex s).rest).widen (run 6 isHex s).width := by
  rw [readRangeRest, apply_ite (widen _)]
  rfl

theorem readRangeRest_local (first : Text) (h : Fenced s) : Local (readRangeRest first) s := by
  have hm := run_local (6 - first.length) (· == '?') s
  have hq : Fenced (run (6 - first.length) (· == '?') s).rest :=
    h.run_rest (fun _ hc => by simp [hc.classes.2.2.2.2.2.2.2]) _
  refine Local.ite (fun t => ?_) (fun _ => readRangeEnd_local first h) fun _ => hm.map _
  rw [hm.append hq.ne_nil]
  rfl

theorem readRange_local (h : Fenced s) : Local readRange s := by
  have hf : Fenced (run 6 isHex s).rest := h.run_rest (fun _ hc => hc.classes.2.2.1) 6
  exact ((run_local 6 isHex s).andThen (readRangeRest_local _ hf)).of_eq (readRange_eq s)
    fun _ t => readRange_eq (s ++ t)

theorem mark_local (text : Text) {n : ℕ} (hn : n ≤ s.length) : Local (mark n text) s :=
  (taken_local hn).map fun _ => [Lexeme.token (.delimiter text)]

theorem length_le_of_startsWith (h : startsWith u s = true) : u.length ≤ s.length := by
  obtain ⟨r, rfl⟩ := startsWith_iff.mp h
  simp

theorem readMark_comment : readMark (char '/') (char '*' :: s) =
    ((skipComment s).map fun _ => []).widen 1 := rfl

theorem readMark_slash (h : s.head? ≠ some (char '*')) :
    readMark (char '/') s = mark 0 [char '/'] s := by
  unfold readMark
  rw [if_neg (by simp), if_neg (by simp), if_neg (by simp), if_pos rfl]
  split
  · exact absurd rfl h
  · rfl

theorem readMark_slash_local (h : Fenced s) : Local (readMark (char '/')) s := by
  by_cases hs : s.head? = some (char '*')
  · obtain ⟨s, rfl⟩ := List.head?_eq_some_iff.mp hs
    exact ((skipComment_local s).map _).cons readMark_comment fun _ _ => readMark_comment
  · refine (mark_local [char '/'] (Nat.zero_le _)).of_eq (readMark_slash hs) fun _ t => ?_
    exact readMark_slash (by rwa [List.head?_append_of_ne_nil _ h.ne_nil])

theorem readMark_local (c : CodePoint) (h : Fenced s) : Local (readMark c) s := by
  by_cases hslash : c = '/'
  · exact hslash ▸ readMark_slash_local h
  have hpos : 1 ≤ s.length := List.length_pos_iff.mpr h.ne_nil
  have hhead (t : Text) : (s ++ t).head? = s.head? := List.head?_append_of_ne_nil _ h.ne_nil
  refine Local.ite (fun t => ?_) (fun _ => (readName_local s).map _) fun _ => ?_
  · rw [h.startsIdentifier_append]
  refine Local.ite (fun t => ?_) ?_ fun _ => ?_
  · rw [h.startsEscape_append, hhead]
  · intro _
    refine Local.of_eq ((readName_local s).map fun name =>
      [Lexeme.token (.hash name (startsIdentifier s))]) rfl fun _ t => ?_
    rw [h.startsIdentifier_append]
  refine Local.ite (fun t => Iff.rfl) (fun _ => (readString_local c s).map _) fun _ => ?_
  refine Local.ite (fun t => Iff.rfl) (fun hc => absurd hc hslash) fun _ => ?_
  refine Local.ite (fun t => ?_) (fun hs => ?_) fun _ => ?_
  · rw [h.startsWith_append (by decide)]
  · exact mark_local _ (length_le_of_startsWith hs.2)
  refine Local.ite (fun t => ?_) (fun _ => mark_local _ hpos) fun _ => ?_
  · rw [hhead]
  refine Local.ite (fun t => ?_) (fun _ => mark_local _ hpos) fun _ => mark_local _ (Nat.zero_le _)
  rw [hhead]

def firstLexemes : Text → Read (List Lexeme)
  | [] => ⟨[], 0, []⟩
  | c :: s => nextLexemes c s

theorem firstLexemes_local_singleton (c : CodePoint) : Local firstLexemes [c] := by
  have hs := nextLexemes_spans c []
  have hw := nextLexemes_width_ne_zero c []
  have hr : (nextLexemes c []).rest = [] := by
    rw [Spans, List.length_singleton] at hs
    exact List.length_eq_zero_iff.mp (by omega)
  refine ⟨?_, fun h => absurd hr h⟩
  rw [firstLexemes, hr]
  exact List.drop_of_length_le (Nat.one_le_iff_ne_zero.mpr hw)

theorem map_widen_one_add {α β : Type} (r : Read α) (f : α → β) (n : ℕ) :
    (r.widen (1 + n)).map f = ((r.map f).widen n).widen 1 := by
  simp only [Read.map, Read.widen, Nat.add_comm 1, Nat.add_assoc]

theorem head?_of_startsRange (h : startsRange (c :: s) = true) : s.head? = some (char '+') := by
  by_contra hp
  rw [startsRange_of_head? hp] at h
  cases h

def bracketOrMark (c : CodePoint) (s : Text) : Read (List Lexeme) :=
  match Bracket.opened? c, Bracket.closed? c with
  | some b, _ => ⟨[.opens b], 1, s⟩
  | none, some b => ⟨[.closes b], 1, s⟩
  | none, none => (readMark c s).widen 1

theorem bracketOrMark_local (c : CodePoint) (h : Fenced s) :
    Local (fun u => bracketOrMark c u.tail) (c :: s) := by
  cases ho : Bracket.opened? c with
  | some b =>
    have he : ∀ u, bracketOrMark c u = (Read.mk [.opens b] 0 u).widen 1 := by
      intro u
      rw [bracketOrMark, ho]
      rfl
    exact (Local.pure s).cons (he s) fun _ t => he (s ++ t)
  | none =>
    cases hc : Bracket.closed? c with
    | some b =>
      have he : ∀ u, bracketOrMark c u = (Read.mk [.closes b] 0 u).widen 1 := by
        intro u
        rw [bracketOrMark, ho, hc]
        rfl
      exact (Local.pure s).cons (he s) fun _ t => he (s ++ t)
    | none =>
      have he : ∀ u, bracketOrMark c u = (readMark c u).widen 1 := by
        intro u
        rw [bracketOrMark, ho, hc]
      exact (readMark_local c h).cons (he s) fun _ t => he (s ++ t)

theorem nextLexemes_local (c : CodePoint) (h : Fenced s) :
    Local (fun u => nextLexemes c u.tail) (c :: s) := by
  refine Local.ite (fun _ => Iff.rfl)
    (fun _ => ((runAll_local isSpace s).map fun space => [Lexeme.token (.space (c :: space))]).cons rfl
      fun _ _ => rfl) fun _ => ?_
  refine Local.ite (fun t => ?_) (fun hr => ?_) fun _ => ?_
  · rw [List.cons_append, List.tail_cons, List.tail_cons, h.startsRange_append]
  · obtain ⟨s, rfl⟩ := List.head?_eq_some_iff.mp (head?_of_startsRange hr)
    have hs := (readRange_local (h.of_cons_of_not_isFence (by decide))).map fun t => [Lexeme.token t]
    have hl : Local (fun u => ((readRange (u.drop 1)).widen (u.take 1).length).map fun t =>
        [Lexeme.token t]) (char '+' :: s) := hs.cons rfl fun _ _ => rfl
    exact hl.cons rfl fun _ _ => rfl
  refine Local.ite (fun t => ?_) (fun hs => ?_) fun _ => ?_
  · rw [List.cons_append, List.tail_cons, List.tail_cons, h.startsWith_append (by decide)]
  · have hl := mark_local "-->" (length_le_of_startsWith hs.2)
    exact hl.cons rfl fun _ _ => rfl
  refine Local.ite (fun t => ?_) (fun hs => ?_) fun _ => ?_
  · rw [List.cons_append, List.tail_cons, List.tail_cons, ← List.cons_append,
      (Fenced.cons c s h).startsIdentifier_append]
  · exact (readIdentLike_local (c :: s)).of_eq rfl fun _ _ => rfl
  have ht (t : Text) : literalLength (c :: (s ++ t)) = literalLength (c :: s) :=
    (Fenced.cons c s h).literalLength_append t
  have hlt := (Fenced.cons c s h).literalLength_lt
  cases hn : literalLength (c :: s) with
  | zero =>
    refine (bracketOrMark_local c h).of_eq ?_ fun _ t => ?_
    · rw [List.tail_cons, hn]
      rfl
    · rw [List.cons_append, List.tail_cons, ht, hn]
      rfl
  | succ n =>
    have hlen : n < s.length := by
      rw [hn, List.length_cons] at hlt
      omega
    have hl := (taken_local hlen.le).andThen
      (k := fun digits u => (readUnit (c :: digits) u).map fun t => [Lexeme.token t])
      ((readUnit_local _ (h.drop hlen)).map _)
    refine hl.cons ?_ fun _ t => ?_
    · rw [List.tail_cons, hn]
      exact map_widen_one_add ..
    · rw [List.tail_cons, ht, hn]
      exact map_widen_one_add ..

theorem firstLexemes_local (h : Fenced s) : Local firstLexemes s := by
  cases h with
  | last c h => exact firstLexemes_local_singleton c
  | cons c s h => exact (nextLexemes_local c h).of_eq rfl fun _ _ => rfl

theorem lexemesFrom_fence (h : IsFence d) :
    lexemesFrom p (d :: s) = (p, punctuationLexeme d) :: lexemesFrom (p.after [d]) s := by
  refine lexemesFrom_punctuation ?_
  rcases h with rfl | rfl <;> decide

theorem lexemesFrom_append_of_local (hl : Local firstLexemes (c :: s))
    (hr : (firstLexemes (c :: s)).rest ≠ []) (t : Text)
    (ih : lexemesFrom (p.after ((c :: s).take (nextLexemes c s).width)) ((nextLexemes c s).rest ++ t) =
      lexemesFrom (p.after ((c :: s).take (nextLexemes c s).width)) (nextLexemes c s).rest ++
        lexemesFrom (p.after (c :: s)) t) :
    lexemesFrom p (c :: s ++ t) = lexemesFrom p (c :: s) ++ lexemesFrom (p.after (c :: s)) t := by
  have hw : (nextLexemes c s).width ≤ (c :: s).length := by
    have hs := nextLexemes_spans c s
    rw [Spans] at hs
    omega
  have hn : nextLexemes c (s ++ t) = (nextLexemes c s).append t := hl.append hr t
  rw [List.cons_append, lexemesFrom_cons, hn, ← List.cons_append]
  dsimp only [Read.append]
  rw [List.take_append_of_le_length hw, ih, lexemesFrom_cons, List.append_assoc]

theorem lexemesFrom_append {l : Lexeme} (hs : Fenced s)
    (h : (lexemesFrom p s).getLast? = some (p.after s.dropLast, l)) (t : Text) :
    lexemesFrom p (s ++ t) = lexemesFrom p s ++ lexemesFrom (p.after s) t := by
  induction hn : s.length using Nat.strong_induction_on generalizing s p with
  | h n ih =>
    have hl := firstLexemes_local hs
    cases hs with
    | last d hd =>
      rw [List.singleton_append, lexemesFrom_fence hd, lexemesFrom_fence hd, lexemesFrom_nil]
      rfl
    | cons c s hs =>
      have hcut : (c :: s).take (nextLexemes c s).width ++ (nextLexemes c s).rest = c :: s :=
        hl.take_append_rest
      have hlen : (nextLexemes c s).rest.length < n :=
        hn ▸ (nextLexemes_spans c s).rest_length_lt (nextLexemes_width_ne_zero c s)
      rw [lexemesFrom_cons, List.getLast?_append] at h
      -- the last lexeme begins behind the first character, so the first lexemes leave the fence over
      obtain h | ⟨-, h⟩ := Option.or_eq_some_iff.mp h
      · have hr : (nextLexemes c s).rest ≠ [] := by
          intro hr
          rw [hr, lexemesFrom_nil] at h
          cases h
        have hf : Fenced (nextLexemes c s).rest := by
          have hd : (c :: s).drop (nextLexemes c s).width = (nextLexemes c s).rest := hl.cut
          rw [← hd] at hr ⊢
          exact (Fenced.cons c s hs).drop (by simpa using hr)
        rw [← hcut, List.dropLast_append_of_ne_nil hr, Position.after_append, hcut] at h
        have ih := ih _ hlen hf h rfl
        rw [← Position.after_append, hcut] at ih
        exact lexemesFrom_append_of_local hl hr t ih
      · obtain ⟨x, -, hx⟩ := List.mem_map.mp (List.mem_of_mem_getLast? h)
        have hp : p.after (c :: s).dropLast = p := (congrArg Prod.fst hx).symm
        refine absurd hp (Position.after_ne_self ?_)
        rw [List.dropLast_cons_of_ne_nil hs.ne_nil]
        exact List.cons_ne_nil _ _

end ColorCensus.Css
