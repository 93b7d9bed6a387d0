import ColorCensus.Css.Lexer
import Mathlib.Data.List.Basic
import Mathlib.Data.List.TakeWhile

namespace ColorCensus.Css

open Text Decimal CodePoint

variable {α β : Type} {c d : CodePoint} {s t : Text}

def Read.append (r : Read α) (t : Text) : Read α := { r with rest := r.rest ++ t }

structure Read.Local (read : Text → Read α) (s : Text) : Prop where
  cut : s.drop (read s).width = (read s).rest
  append : (read s).rest ≠ [] → ∀ t, read (s ++ t) = (read s).append t

namespace Read

variable {read read' : Text → Read α} {k : α → Text → Read β}

theorem Local.take_append_rest (h : Local read s) : s.take (read s).width ++ (read s).rest = s := by
  rw [← h.cut, List.take_append_drop]

theorem Local.ne_nil (h : Local read s) (hr : (read s).rest ≠ []) : s ≠ [] := by
  rintro rfl
  exact hr (h.cut ▸ List.drop_nil)

theorem Local.nil (h : (read []).rest = []) : Local read [] :=
  ⟨by rw [h, List.drop_nil], fun hr => absurd h hr⟩

theorem Local.map (h : Local read s) (f : α → β) : Local (fun s => (read s).map f) s where
  cut := h.cut
  append := by
    intro hr t
    rw [h.append hr]
    rfl

theorem Local.andThen (h : Local read s) (hn : Local (k (read s).value) (read s).rest) :
    Local (fun s => (k (read s).value (read s).rest).widen (read s).width) s where
  cut := by
    dsimp only [widen]
    rw [Nat.add_comm, ← List.drop_drop, h.cut, hn.cut]
  append := by
    intro hr t
    dsimp only [widen] at hr ⊢
    rw [h.append (hn.ne_nil hr)]
    dsimp only [Read.append]
    rw [hn.append hr]
    rfl

theorem Local.of_eq (h : Local read s) (he : read' s = read s)
    (ha : (read s).rest ≠ [] → ∀ t, read' (s ++ t) = read (s ++ t)) : Local read' s where
  cut := he ▸ h.cut
  append := by
    rw [he]
    intro hr t
    rw [ha hr, h.append hr]

theorem Local.cons (h : Local read s) (he : read' (c :: s) = (read s).widen 1)
    (ha : (read s).rest ≠ [] → ∀ t, read' (c :: (s ++ t)) = (read (s ++ t)).widen 1) :
    Local read' (c :: s) where
  cut := he ▸ h.cut
  append := by
    rw [he]
    intro hr t
    rw [List.cons_append, ha hr, h.append hr]
    rfl

theorem Local.ite {q : Text → Prop} [DecidablePred q] (hq : ∀ t, q (s ++ t) ↔ q s)
    (h : q s → Local read s) (h' : ¬ q s → Local read' s) :
    Local (fun u => if q u then read u else read' u) s := by
  by_cases hs : q s
  · exact (h hs).of_eq (if_pos hs) fun _ t => if_pos ((hq t).mpr hs)
  · exact (h' hs).of_eq (if_neg hs) fun _ t => if_neg fun ht => hs ((hq t).mp ht)

theorem Local.pure {a : α} (s : Text) : Local (Read.mk a 0) s :=
  ⟨rfl, fun _ _ => rfl⟩

theorem drop_length_of_append {r : Text} (h : r ++ t = s) : s.drop r.length = t := by
  rw [← h, List.drop_left]

theorem takeRun_append_right {limit : ℕ} {p : CodePoint → Bool} (h : (takeRun limit p s).2 ≠ [])
    (t : Text) : takeRun limit p (s ++ t) = ((takeRun limit p s).1, (takeRun limit p s).2 ++ t) := by
  induction s generalizing limit with
  | nil => exact absurd (by cases limit <;> rfl) h
  | cons c s ih =>
    cases limit with
    | zero => rfl
    | succ limit =>
      rw [takeRun] at h ⊢
      rw [List.cons_append, takeRun]
      split
      · next hc =>
        rw [if_pos hc] at h
        rw [ih h]
      · rfl

theorem run_local (limit : ℕ) (p : CodePoint → Bool) (s : Text) : Local (run limit p) s where
  cut := drop_length_of_append (takeRun_append limit p s)
  append := by
    intro hr t
    rw [run, takeRun_append_right hr]
    rfl

theorem runAll_local (p : CodePoint → Bool) (s : Text) : Local (runAll p) s where
  cut := drop_length_of_append List.takeWhile_append_dropWhile
  append := by
    intro hr t
    have hne : (s.dropWhile p).isEmpty = false := by simpa [runAll] using hr
    have hd : (s ++ t).dropWhile p = s.dropWhile p ++ t := by simp [List.dropWhile_append, hne]
    have ht : (s ++ t).takeWhile p = s.takeWhile p := by
      have h := List.takeWhile_append_dropWhile (p := p) (l := s ++ t)
      have h' := List.takeWhile_append_dropWhile (p := p) (l := s)
      rw [hd, ← List.append_assoc] at h
      exact List.append_cancel_right ((List.append_cancel_right h).trans h'.symm)
    rw [runAll, hd, ht]
    rfl

def taken (n : ℕ) (s : Text) : Read Text := ⟨s.take n, (s.take n).length, s.drop n⟩

theorem taken_local {n : ℕ} (hn : n ≤ s.length) : Local (taken n) s where
  cut := drop_length_of_append (List.take_append_drop n s)
  append := by
    intro _ t
    rw [taken, List.take_append_of_le_length hn, List.drop_append_of_le_length hn]
    rfl

end Read

open Read

theorem startsLine_append (h : s ≠ []) (t : Text) : startsLine (s ++ t) = startsLine s := by
  cases s with
  | nil => exact absurd rfl h
  | cons c s =>
    rw [List.cons_append, startsLine.eq_def, startsLine.eq_def]
    split <;> simp_all

theorem not_escape_append (h : ¬ (c = '\\' ∧ startsLine s = false)) (t : Text) :
    ¬ (c = '\\' ∧ startsLine (s ++ t) = false) := by
  rintro ⟨rfl, hl⟩
  have hne : s ≠ [] := by
    rintro rfl
    exact h ⟨rfl, rfl⟩
  exact h ⟨rfl, (startsLine_append hne t).symm.trans hl⟩

theorem readEscape_local (s : Text) : Local readEscape s := by
  cases s with
  | nil => exact .nil rfl
  | cons c s =>
    by_cases hc : isHex c = true
    · have hp := (run_local 6 isHex (c :: s)).andThen (k := fun digits s =>
        (Read.run 1 isSpace s).map fun _ => escapedPoint (ofHex digits)) ((run_local 1 isSpace _).map _)
      have he : ∀ u, readEscape (c :: u) = ((Read.run 1 isSpace (Read.run 6 isHex (c :: u)).rest).map
          fun _ => escapedPoint (ofHex (Read.run 6 isHex (c :: u)).value)).widen
            (Read.run 6 isHex (c :: u)).width := by
        intro u
        simp only [readEscape, hc, if_true, Read.map, Read.widen, Nat.add_comm]
      exact hp.of_eq (he s) fun _ t => he (s ++ t)
    · have he : ∀ u, readEscape (c :: u) = (Read.mk c 0 u).widen 1 := by
        intro u
        rw [readEscape, if_neg hc]
        rfl
      exact (Local.pure s).cons (he s) fun _ t => he (s ++ t)

theorem readName_local (s : Text) : Local readName s := by
  fun_induction readName s with
  | case1 => exact .nil (by rw [readName])
  | case2 c s hc ih =>
    have he : ∀ u, readName (c :: u) = ((readName u).map (c :: ·)).widen 1 := by
      intro u
      rw [readName, if_pos hc]
      rfl
    exact (ih.map _).cons (he s) fun _ t => he (s ++ t)
  | case3 c s hc hs _ ih =>
    have hl := (readEscape_local s).andThen (k := fun d u => (readName u).map (d :: ·)) (ih.map _)
    have he : ∀ u, startsLine u = false → readName (c :: u) =
        (((readName (readEscape u).rest).map ((readEscape u).value :: ·)).widen
          (readEscape u).width).widen 1 := by
      intro u hu
      rw [readName, if_neg hc, if_pos ⟨hs.1, hu⟩]
      simp only [Read.map, Read.widen, Nat.add_comm, Nat.add_assoc]
    refine hl.cons (he s hs.2) fun hr t => he _ ?_
    rw [startsLine_append (hl.ne_nil hr), hs.2]
  | case4 c s hc hs =>
    have he : ∀ u, ¬ (c = '\\' ∧ startsLine u = false) → readName (c :: u) = ⟨[], 0, c :: u⟩ := by
      intro u hu
      rw [readName, if_neg hc, if_neg hu]
    exact (Local.pure (c :: s)).of_eq (he s hs) fun _ t => he _ (not_escape_append hs t)

theorem not_head_pair {a b : CodePoint} (h : ∀ t, c = a → s = b :: t → False) :
    ¬ (c = a ∧ s.head? = some b) := by
  rintro ⟨rfl, hs⟩
  obtain ⟨t, rfl⟩ := List.head?_eq_some_iff.mp hs
  exact h t rfl rfl

theorem skipComment_cons (h : ¬ (c = '*' ∧ s.head? = some (char '/'))) :
    skipComment (c :: s) = (skipComment s).widen 1 := by
  rw [skipComment]
  rintro u rfl rfl
  exact h ⟨rfl, rfl⟩

theorem skipComment_local (s : Text) : Local skipComment s := by
  fun_induction skipComment s with
  | case1 s =>
    have h : Local (fun u => (Read.mk () 0 u.tail).widen 1) (char '/' :: s) :=
      (Local.pure s).cons rfl fun _ _ => rfl
    exact h.cons rfl fun _ _ => rfl
  | case2 c s hs ih =>
    refine ih.cons (skipComment_cons (not_head_pair hs)) fun hr t => skipComment_cons ?_
    rw [List.head?_append_of_ne_nil _ (ih.ne_nil hr)]
    exact not_head_pair hs
  | case3 => exact .nil rfl

theorem readString_local (quote : CodePoint) (s : Text) : Local (readString quote) s := by
  fun_induction readString quote s with
  | case1 => exact .nil (by rw [readString])
  | case2 s =>
    have he : ∀ u, readString quote (quote :: u) = (Read.mk ⟨[], .closed⟩ 0 u).widen 1 := by
      intro u
      rw [readString.eq_def]
      exact if_pos rfl
    exact (Local.pure s).cons (he s) fun _ t => he (s ++ t)
  | case3 hq =>
    have he : readString quote [char '\\'] = ⟨⟨[], .unfinished⟩, 1, []⟩ := by
      rw [readString.eq_def]
      exact if_neg hq
    exact ⟨by rw [he]; rfl, fun hr => absurd (by rw [he]) hr⟩
  | case4 t hq ih =>
    have h : Local (fun u => (readString quote u.tail).widen 1) (char '\n' :: t) :=
      ih.cons rfl fun _ _ => rfl
    have he : ∀ u, readString quote (char '\\' :: char '\n' :: u) =
        ((readString quote u).widen 1).widen 1 := by
      intro u
      rw [readString.eq_def]
      exact if_neg hq
    exact h.cons (he t) fun _ u => he (t ++ u)
  | case5 d t hq _ _ hd ih =>
    have h := (readEscape_local (d :: t)).andThen
      (k := fun e u => (readString quote u).map (StringValue.cons e)) (ih.map _)
    have he : ∀ u, readString quote (char '\\' :: d :: u) =
        (((readString quote (readEscape (d :: u)).rest).map (.cons (readEscape (d :: u)).value)).widen
          (readEscape (d :: u)).width).widen 1 := by
      intro u
      rw [readString.eq_def]
      dsimp only
      rw [if_neg hq, if_pos rfl, if_neg hd]
      simp only [Read.map, Read.widen, Nat.add_comm, Nat.add_assoc]
    exact h.cons (he t) fun _ u => he (t ++ u)
  | case6 s hq _ =>
    have he : ∀ u, readString quote (char '\n' :: u) = ⟨⟨[], .broken⟩, 0, char '\n' :: u⟩ := by
      intro u
      rw [readString.eq_def]
      exact (if_neg hq)
    exact (Local.pure (char '\n' :: s)).of_eq (he s) fun _ t => he (s ++ t)
  | case7 c s hq hb hn ih =>
    have he : ∀ u, readString quote (c :: u) = ((readString quote u).map (.cons c)).widen 1 := by
      intro u
      rw [readString.eq_def]
      dsimp only
      rw [if_neg hq, if_neg hb, if_neg hn]
      rfl
    exact (ih.map _).cons (he s) fun _ t => he (s ++ t)

theorem skipUrl_cons (h : ¬ (c = '\\' ∧ s.head? = some (char ')'))) :
    skipUrl (c :: s) = if c = ')' then ⟨(), 1, s⟩ else (skipUrl s).widen 1 := by
  rw [skipUrl]
  rintro u rfl rfl
  exact h ⟨rfl, rfl⟩

theorem skipUrl_local (s : Text) : Local skipUrl s := by
  fun_induction skipUrl s with
  | case1 s ih =>
    have h : Local (fun u => (skipUrl u.tail).widen 1) (char ')' :: s) := ih.cons rfl fun _ _ => rfl
    exact h.cons rfl fun _ _ => rfl
  | case2 s => exact (Local.pure s).cons rfl fun _ _ => rfl
  | case3 c s hs hc ih =>
    have hc' : ¬ (c = char '\\' ∧ s.head? = some (char ')')) := not_head_pair hs
    refine ih.cons ?_ fun hr t => ?_
    · rw [skipUrl_cons hc', if_neg hc]
    · rw [skipUrl_cons, if_neg hc]
      rwa [List.head?_append_of_ne_nil _ (ih.ne_nil hr)]
  | case4 => exact .nil rfl

theorem closeUrl_local (s : Text) : Local closeUrl s := by
  cases s with
  | nil => exact .nil rfl
  | cons c s =>
    by_cases hc : c = ')'
    · have he : ∀ u, closeUrl (c :: u) = (Read.mk ⟨some [], true⟩ 0 u).widen 1 := fun u => if_pos hc
      exact (Local.pure s).cons (he s) fun _ t => he (s ++ t)
    · have he : ∀ u, closeUrl (c :: u) = (skipUrl (c :: u)).map fun _ => .broken := fun u => if_neg hc
      exact ((skipUrl_local (c :: s)).map _).of_eq (he s) fun _ t => he (s ++ t)

theorem pastSpace_local {read : Text → Read α} (h : ∀ s, Local read s) (s : Text) :
    Local (pastSpace read) s :=
  (runAll_local isSpace s).andThen (k := fun _ => read) (h _)

theorem readUrlFrom_local (s : Text) : Local readUrlFrom s := by
  fun_induction readUrlFrom s with
  | case1 => exact .nil (by rw [readUrlFrom])
  | case2 s =>
    have he : ∀ u, readUrlFrom (char ')' :: u) = (Read.mk ⟨some [], true⟩ 0 u).widen 1 := by
      intro u
      rw [readUrlFrom]
      exact if_pos rfl
    exact (Local.pure s).cons (he s) fun _ t => he (s ++ t)
  | case3 c s hc hs =>
    have he : ∀ u, readUrlFrom (c :: u) = (pastSpace closeUrl u).widen 1 := by
      intro u
      rw [readUrlFrom, if_neg hc, if_pos hs]
    exact (pastSpace_local closeUrl_local s).cons (he s) fun _ t => he (s ++ t)
  | case4 c s hc hs hl _ _ ih =>
    have h := (readEscape_local s).andThen (k := fun e u => (readUrlFrom u).map (UrlValue.cons e))
      (ih.map _)
    have he : ∀ u, startsLine u = false → readUrlFrom (c :: u) =
        (((readUrlFrom (readEscape u).rest).map (.cons (readEscape u).value)).widen
          (readEscape u).width).widen 1 := by
      intro u hu
      rw [readUrlFrom, if_neg hc, if_neg hs, if_pos ⟨hl.1, hu⟩]
      simp only [Read.map, Read.widen, Nat.add_comm, Nat.add_assoc]
    refine h.cons (he s hl.2) fun hr t => he _ ?_
    rw [startsLine_append (h.ne_nil hr), hl.2]
  | case5 c s hc hs hl hb =>
    have he : ∀ u, ¬ (c = '\\' ∧ startsLine u = false) → readUrlFrom (c :: u) =
        ((skipUrl u).map fun _ => .broken).widen 1 := by
      intro u hu
      rw [readUrlFrom, if_neg hc, if_neg hs, if_neg hu, if_pos hb]
      rfl
    exact ((skipUrl_local s).map _).cons (he s hl) fun _ t => he _ (not_escape_append hl t)
  | case6 c s hc hs hl hb ih =>
    have he : ∀ u, ¬ (c = '\\' ∧ startsLine u = false) → readUrlFrom (c :: u) =
        ((readUrlFrom u).map (.cons c)).widen 1 := by
      intro u hu
      rw [readUrlFrom, if_neg hc, if_neg hs, if_neg hu, if_neg hb]
      rfl
    exact (ih.map _).cons (he s hl) fun _ t => he _ (not_escape_append hl t)

theorem readUrl_local (s : Text) : Local readUrl s := pastSpace_local readUrlFrom_local s

theorem dropWhile_ne_nil_of_readUrl (h : (readUrl s).rest ≠ []) : s.dropWhile isSpace ≠ [] := by
  have hr : (readUrlFrom (s.dropWhile isSpace)).rest ≠ [] := h
  exact (readUrlFrom_local _).ne_nil hr

theorem quoteAhead_append (h : s.dropWhile isSpace ≠ []) (t : Text) :
    quoteAhead (s ++ t) = quoteAhead s := by
  obtain ⟨c, u, hu⟩ := List.exists_cons_of_ne_nil h
  have hd : (s ++ t).dropWhile isSpace = c :: (u ++ t) := by
    rw [List.dropWhile_append, hu]
    rfl
  rw [quoteAhead, quoteAhead, hd, hu]

theorem readAfterName_of_head? (name : Text) (h : s.head? ≠ some (char '(')) :
    readAfterName name s = ⟨[.token (.ident name)], 0, s⟩ := by
  unfold readAfterName
  split
  · exact absurd rfl h
  · rfl

theorem readAfterName_local (name s : Text) : Local (readAfterName name) s := by
  cases s with
  | nil => exact .nil rfl
  | cons c s =>
    by_cases hc : c = '('
    · subst hc
      by_cases hu : asciiLower name = "url" ∧ quoteAhead s = false
      · have he : ∀ u, quoteAhead u = false →
            readAfterName name (char '(' :: u) = ((readUrl u).map urlLexemes).widen 1 :=
          fun u hq => if_pos ⟨hu.1, hq⟩
        refine ((readUrl_local s).map _).cons (he s hu.2) fun hr t => he _ ?_
        rw [quoteAhead_append (dropWhile_ne_nil_of_readUrl hr), hu.2]
      · have he : ∀ u, ¬ (asciiLower name = "url" ∧ quoteAhead u = false) →
            readAfterName name (char '(' :: u) = (Read.mk [.opensFunction name] 0 u).widen 1 :=
          fun u hq => if_neg hq
        refine (Local.pure s).cons (he s hu) fun hr t => he _ ?_
        rintro ⟨hn, hq⟩
        have hs : quoteAhead s = true := by simpa [hn] using hu
        have hd : s.dropWhile isSpace ≠ [] := by
          intro hd
          rw [quoteAhead, hd] at hs
          cases hs
        rw [quoteAhead_append hd, hs] at hq
        cases hq
    · have he : ∀ u, readAfterName name (c :: u) = ⟨[.token (.ident name)], 0, c :: u⟩ :=
        fun u => readAfterName_of_head? name (by simpa using hc)
      exact (Local.pure (c :: s)).of_eq (he s) fun _ t => he (s ++ t)

theorem readIdentLike_local (s : Text) : Local readIdentLike s :=
  (readName_local s).andThen (readAfterName_local _ _)

end ColorCensus.Css
