import ColorCensus.Proofs.Css.Folding
import ColorCensus.Proofs.Css.LineEnds

namespace ColorCensus.Css

open Text CodePoint

variable {c d : CodePoint} {s t : Text}

theorem asciiLower_nameText (s : Text) : asciiLower (nameText (asciiLower s)) = asciiLower (nameText s) :=
  asciiLower_flatMap (by decide) s

theorem asciiLower_stringText (s : Text) :
    asciiLower (stringText (asciiLower s)) = asciiLower (stringText s) :=
  asciiLower_flatMap (by decide) s

theorem asciiLower_urlText (s : Text) : asciiLower (urlText (asciiLower s)) = asciiLower (urlText s) :=
  asciiLower_flatMap (by decide) s

theorem asciiLower_firstText (c : CodePoint) (s : Text) :
    asciiLower (firstText c.toLower ++ nameText (asciiLower s)) = asciiLower (firstText c ++ nameText s) :=
  asciiLower_append_congr (apply_toLower (f := fun c => asciiLower (firstText c)) (by decide) c)
    (asciiLower_nameText s)

theorem identifierText_cons (h : c ≠ '-') : identifierText (c :: s) = firstText c ++ nameText s := by
  rw [identifierText.eq_def]
  split
  · next heq => cases heq
  · next heq => exact absurd (List.cons.inj heq).1 h
  · next heq => exact absurd (List.cons.inj heq).1 h
  · next heq => exact absurd (List.cons.inj heq).1 h
  · next heq =>
    obtain ⟨rfl, rfl⟩ := List.cons.inj heq
    rfl

theorem identifierText_minus (h : c ≠ '-') :
    identifierText (char '-' :: c :: s) = char '-' :: (firstText c ++ nameText s) := by
  rw [identifierText]
  intro hc
  exact absurd hc h

theorem asciiLower_identifierText (s : Text) :
    asciiLower (identifierText (asciiLower s)) = asciiLower (identifierText s) := by
  have hm (c : CodePoint) (h : c ≠ '-') : c.toLower ≠ '-' := mt (toLower_eq_iff (by decide)).mp h
  have hl : (char '-').toLower = char '-' := by decide
  cases s with
  | nil => rfl
  | cons c s =>
    by_cases hc : c = '-'
    · subst hc
      rw [asciiLower_cons, hl]
      cases s with
      | nil => rfl
      | cons d s =>
        rw [asciiLower_cons]
        by_cases hd : d = '-'
        · subst hd
          rw [hl]
          exact congrArg (fun s => char '-' :: char '-' :: s) (asciiLower_nameText s)
        · rw [identifierText_minus hd, identifierText_minus (hm d hd)]
          exact congrArg (char '-' :: ·) (asciiLower_firstText d s)
    · rw [asciiLower_cons, identifierText_cons hc, identifierText_cons (hm c hc)]
      exact asciiLower_firstText c s

theorem asciiLower_unitText (s : Text) : asciiLower (unitText (asciiLower s)) = asciiLower (unitText s) := by
  cases s with
  | nil => rfl
  | cons c s =>
    have hexp : (c.toLower = 'e' ∨ c.toLower = 'E') ∧
        (asciiLower s = [] ∨ (asciiLower s).head? = some '-') ↔
        (c = 'e' ∨ c = 'E') ∧ (s = [] ∨ s.head? = some '-') := by
      refine and_congr (Iff.of_eq ?_) (or_congr List.map_eq_nil_iff (head?_asciiLower (by decide)))
      exact apply_toLower (f := fun c => c = 'e' ∨ c = 'E') (by decide) c
    rw [asciiLower_cons, unitText, unitText]
    by_cases h : (c = 'e' ∨ c = 'E') ∧ (s = [] ∨ s.head? = some '-')
    · rw [if_pos h, if_pos (hexp.mpr h)]
      exact asciiLower_append_congr rfl (asciiLower_nameText s)
    · rw [if_neg h, if_neg fun h' => h (hexp.mp h')]
      exact asciiLower_identifierText (c :: s)

theorem asciiLower_text_fold (t : Token) : asciiLower t.fold.text = asciiLower t.text := by
  cases t with
  | space text => exact asciiLower_asciiLower text
  | ident name => exact asciiLower_identifierText name
  | atKeyword name => exact congrArg (char '@' :: ·) (asciiLower_identifierText name)
  | hash name isIdentifier =>
    cases isIdentifier with
    | true => exact congrArg (char '#' :: ·) (asciiLower_identifierText name)
    | false => exact congrArg (char '#' :: ·) (asciiLower_nameText name)
  | string value closed =>
    exact asciiLower_append_congr (congrArg (char '"' :: ·) (asciiLower_stringText value)) rfl
  | url value closed =>
    exact asciiLower_append_congr (asciiLower_append_congr rfl (asciiLower_urlText value)) rfl
  | unicodeRange first last => rfl
  | number text => exact asciiLower_asciiLower text
  | percentage text => exact asciiLower_append_congr (asciiLower_asciiLower text) rfl
  | dimension text unit => exact asciiLower_append_congr (asciiLower_asciiLower text) (asciiLower_unitText unit)
  | delimiter text => rfl
  | fault f => rfl

namespace Node

mutual

theorem asciiLower_text_rewrite : ∀ n : Node, asciiLower (n.rewrite .fold).text = asciiLower n.text
  | .token _ t => asciiLower_text_fold t
  | .function _ name arguments _ => by
    rw [rewrite, text, text, listEndsInString_rewrite]
    exact asciiLower_append_congr (asciiLower_append_congr
      (asciiLower_append_congr (asciiLower_identifierText name) rfl)
      (asciiLower_listTextAfter_rewriteAll none arguments)) rfl
  | .block _ b content _ => by
    rw [rewrite, text, text]
    have hc := congrArg (b.opening.toLower :: ·) (asciiLower_listTextAfter_rewriteAll none content)
    exact asciiLower_append_congr hc rfl

theorem asciiLower_listTextAfter_rewriteAll : ∀ (k : Option Kind) (ns : List Node),
    asciiLower (listTextAfter k (rewriteAll .fold ns)) = asciiLower (listTextAfter k ns)
  | _, [] => rfl
  | k, n :: ns => by
    rw [rewriteAll, listTextAfter, listTextAfter, separatorText_rewrite, kind_rewrite]
    exact asciiLower_append_congr (asciiLower_append_congr rfl (asciiLower_text_rewrite n))
      (asciiLower_listTextAfter_rewriteAll (some n.kind) ns)

end

theorem asciiLower_listText_rewrite (ns : List Node) :
    asciiLower (listText (ns.map (rewrite .fold))) = asciiLower (listText ns) := by
  rw [← rewriteAll_eq_map]
  exact asciiLower_listTextAfter_rewriteAll none ns

end Node

theorem read_asciiLower (s : Text) :
    (Node.read (asciiLower s)).map (Node.rewrite .fold) = (Node.read s).map (Node.rewrite .fold) := by
  have hn (s : Text) : (Node.read s).map (Node.rewrite .fold) =
      Node.ofLexemes ((lexemes s).map Lexeme.foldAt) := Node.ofLexemes_rewrite.symm
  rw [hn, hn, lexemes_asciiLower]

theorem afterComment?_asciiLower (s : Text) :
    afterComment? (asciiLower s) = (afterComment? s).map asciiLower := by
  fun_induction afterComment? s with
  | case1 s => rfl
  | case2 c s h ih =>
    have hc : ¬ (c.toLower = '*' ∧ (asciiLower s).head? = some (char '/')) := by
      rw [head_pair_asciiLower (by decide) (by decide)]
      exact not_head_pair h
    rw [asciiLower_cons, afterComment?_cons hc, ih]
  | case3 => rfl

theorem afterString?_asciiLower {quote : CodePoint} (hq : IsCaseFree quote) (s : Text) :
    afterString? quote (asciiLower s) = (afterString? quote s).map asciiLower := by
  have hc (c : CodePoint) : c.toLower = quote ↔ c = quote := toLower_eq_iff hq
  have hb (c : CodePoint) : c.toLower = '\\' ↔ c = '\\' := toLower_eq_iff (by decide)
  have hn (c : CodePoint) : c.toLower = '\n' ↔ c = '\n' := toLower_eq_iff (by decide)
  fun_induction afterString? quote s with
  | case1 => rfl
  | case2 s =>
    rw [asciiLower_cons, (hc quote).mpr rfl, afterString?.eq_def]
    exact if_pos rfl
  | case3 h => exact if_neg h
  | case4 d t h ih =>
    rw [asciiLower_cons, asciiLower_cons, (hb _).mpr rfl, ← ih]
    exact if_neg h
  | case5 s h _ =>
    rw [asciiLower_cons, (hn _).mpr rfl, afterString?.eq_def]
    exact if_neg h
  | case6 c s h hb' hn' ih =>
    rw [asciiLower_cons, ← ih]
    exact afterString?_cons ⟨mt (hc c).mp h, mt (hb c).mp hb', mt (hn c).mp hn'⟩

theorem afterPiece?_asciiLower (c : CodePoint) (s : Text) :
    afterPiece? c.toLower (asciiLower s) = (afterPiece? c s).map asciiLower := by
  have hc {d : CodePoint} (h : IsCaseFree d) : c.toLower = d ↔ c = d := toLower_eq_iff h
  have hstar : (asciiLower s).head? = some (char '*') ↔ s.head? = some (char '*') :=
    head?_asciiLower (by decide)
  have hslash : c.toLower = '/' ↔ c = '/' := hc (by decide)
  unfold afterPiece?
  by_cases h : c = '/' ∧ s.head? = some '*'
  · rw [if_pos h, if_pos ⟨hslash.mpr h.1, hstar.mpr h.2⟩, drop_asciiLower]
    exact afterComment?_asciiLower _
  · rw [if_neg h, if_neg fun h' => h ⟨hslash.mp h'.1, hstar.mp h'.2⟩]
    by_cases hq : c = '"' ∨ c = '\''
    · have hd : IsCaseFree c := by rcases hq with rfl | rfl <;> decide
      rw [toLower_of_not_mem hd.1, if_pos hq, if_pos hq]
      exact afterString?_asciiLower hd s
    · rw [if_neg hq, if_neg (mt (or_congr (hc (by decide)) (hc (by decide))).mp hq)]
      by_cases hb : c = '\\'
      · rw [if_pos hb, if_pos ((hc (by decide)).mpr hb)]
        cases s <;> rfl
      · rw [if_neg hb, if_neg (mt (hc (by decide)).mp hb)]
        rfl

theorem bare_asciiLower (s : Text) : bare (asciiLower s) = asciiLower (bare s) := by
  fun_induction bare s with
  | case1 => rw [asciiLower, List.map_nil, bare_nil]
  | case2 c s r h _ ih =>
    have hp := (afterPiece?_asciiLower c s).trans (congrArg (Option.map asciiLower) h)
    rw [asciiLower_cons, bare_cons_of_some hp, ih]
  | case3 c s h ih =>
    have hp := (afterPiece?_asciiLower c s).trans (congrArg (Option.map asciiLower) h)
    rw [asciiLower_cons, bare_cons_of_none hp, ih, asciiLower_cons]

theorem imbalanceFrom_asciiLower (depth : ℕ) (s : Text) :
    imbalanceFrom depth (asciiLower s) = imbalanceFrom depth s := by
  have ho (c : CodePoint) : c.toLower = '\x7b' ↔ c = '\x7b' := toLower_eq_iff (by decide)
  have hc (c : CodePoint) : c.toLower = '\x7d' ↔ c = '\x7d' := toLower_eq_iff (by decide)
  induction s generalizing depth with
  | nil => rfl
  | cons c s ih => cases depth <;> simp only [asciiLower_cons, imbalanceFrom, ho, hc, ih]

theorem imbalance_asciiLower (s : Text) : imbalance (asciiLower s) = imbalance s := by
  rw [imbalance, imbalance, bare_asciiLower, imbalanceFrom_asciiLower]

end ColorCensus.Css
