import ColorCensus.Json.Reader
import ColorCensus.Proofs.Outcome

namespace ColorCensus.Json

open Text CodePoint

variable {α β : Type} {s t u rest : Text} {c d e : CodePoint} {a : α} {b : β} {v : Value} {vs : List Value}
  {fields : List (Text × Value)} {n k : ℕ} {limit : DigitLimit}

def Reads (x : Except Fault (α × Rest s)) (a : α) (rest : Text) : Prop :=
  ∃ r, x = .ok (a, r) ∧ r.text = rest

theorem Reads.map {x : Except Fault (α × Rest s)} (h : Reads x a rest) {f : α × Rest s → β × Rest t}
    (hb : ∀ r, (f (a, r)).1 = b) (hf : ∀ r, (f (a, r)).2.text = r.text) : Reads (x.map f) b rest := by
  obtain ⟨r, rfl, hr⟩ := h
  refine ⟨(f (a, r)).2, ?_, (hf r).trans hr⟩
  rw [← hb r]
  rfl

theorem reads_of_map {x : Except Fault (α × Rest t)} {f : α × Rest t → β × Rest s}
    (h : Reads (x.map f) b rest) (hf : ∀ y, (f y).2.text = y.2.text) :
    ∃ a, Reads x a rest ∧ ∃ r, (f (a, r)).1 = b := by
  obtain ⟨r, h, rfl⟩ := h
  obtain ⟨⟨a, q⟩, hx, h⟩ := map_eq_ok.mp h
  exact ⟨a, ⟨q, hx, by rw [← hf (a, q), h]⟩, q, by rw [h]⟩

theorem readCharacters_quote (s : Text) : Reads (readCharacters (char '"' :: s)) [] s := by
  rw [readCharacters.eq_def]
  exact ⟨_, if_pos rfl, rfl⟩

theorem readCharacters_plain (hq : c ≠ char '"') (hb : c ≠ char '\\') (hc : 32 ≤ c.toNat)
    (h : Reads (readCharacters s) u rest) : Reads (readCharacters (c :: s)) (c :: u) rest := by
  rw [readCharacters.eq_def]
  dsimp only
  rw [if_neg hq, if_neg hb, if_neg (Nat.not_lt.mpr hc)]
  exact h.map (fun _ => rfl) fun _ => rfl

theorem readCharacters_escape (hd : d ≠ char 'u') (he : simpleEscape d = some e)
    (h : Reads (readCharacters s) u rest) :
    Reads (readCharacters (char '\\' :: d :: s)) (e :: u) rest := by
  rw [readCharacters.eq_def]
  dsimp only
  rw [if_neg (by decide), if_pos rfl, if_neg hd]
  simp only [he]
  exact h.map (fun _ => rfl) fun _ => rfl

theorem readCharacters_unit (hn : codeUnit s = some n) (hc : unitChar n (s.drop 4) = (c, k))
    (h : Reads (readCharacters ((s.drop 4).drop k)) u rest) :
    Reads (readCharacters (char '\\' :: char 'u' :: s)) (c :: u) rest := by
  rw [readCharacters.eq_def]
  dsimp only
  rw [if_neg (by decide), if_pos rfl, if_pos rfl]
  simp only [hn]
  refine Reads.map (a := u) ?_ (fun _ => congrArg (· :: u) (congrArg Prod.fst hc)) fun _ => rfl
  rw [hc]
  exact h

theorem readCharacters_cases (h : Reads (readCharacters s) u rest) :
    (s = char '"' :: rest ∧ u = []) ∨
    (∃ c t v, s = c :: t ∧ c ≠ char '"' ∧ c ≠ char '\\' ∧ 32 ≤ c.toNat ∧ u = c :: v ∧
      Reads (readCharacters t) v rest) ∨
    (∃ d e t v, s = char '\\' :: d :: t ∧ simpleEscape d = some e ∧ u = e :: v ∧
      Reads (readCharacters t) v rest) ∨
    ∃ n t v, s = char '\\' :: char 'u' :: t ∧ codeUnit t = some n ∧
      u = (unitChar n (t.drop 4)).1 :: v ∧
      Reads (readCharacters ((t.drop 4).drop (unitChar n (t.drop 4)).2)) v rest := by
  rw [readCharacters.eq_def] at h
  split at h
  · obtain ⟨r, h, -⟩ := h
    cases h
  · next c s =>
    split at h
    · next hq =>
      obtain ⟨r, h, rfl⟩ := h
      cases h
      exact .inl ⟨hq ▸ rfl, rfl⟩
    · next hq =>
      split at h
      · next hb =>
        split at h
        · obtain ⟨r, h, -⟩ := h
          cases h
        · next d t =>
          split at h
          · next hu =>
            split at h
            · obtain ⟨r, h, -⟩ := h
              cases h
            · next n hn =>
              obtain ⟨v, hv, r, rfl⟩ := reads_of_map h fun _ => rfl
              exact .inr (.inr (.inr ⟨n, t, v, by rw [hb, hu], hn, rfl, hv⟩))
          · split at h
            · obtain ⟨r, h, -⟩ := h
              cases h
            · next e he =>
              obtain ⟨v, hv, r, rfl⟩ := reads_of_map h fun _ => rfl
              exact .inr (.inr (.inl ⟨d, e, t, v, by rw [hb], he, rfl, hv⟩))
      · next hb =>
        split at h
        · obtain ⟨r, h, -⟩ := h
          cases h
        · next hc =>
          obtain ⟨v, hv, r, rfl⟩ := reads_of_map h fun _ => rfl
          exact .inr (.inl ⟨c, s, v, rfl, hq, hb, Nat.not_lt.mp hc, rfl, hv⟩)

theorem reads_readString_iff : Reads (readString s) u rest ↔ Reads (readCharacters s) u rest := by
  unfold readString
  cases readCharacters s with
  | ok y => exact Iff.rfl
  | error f =>
    constructor
    · rintro ⟨r, h, -⟩
      cases h
    · rintro ⟨r, h, -⟩
      cases h

def OpensNothing (c : CodePoint) : Prop := c ≠ char '"' ∧ c ≠ char '[' ∧ c ≠ char '\x7b'

instance (c : CodePoint) : Decidable (OpensNothing c) := inferInstanceAs (Decidable (_ ∧ _))

theorem excess?_eq_none_iff : excess? limit v = none ↔ ∀ n, v = .integer n → limit.admits n = true := by
  cases v <;> simp [excess?, DigitLimit.admits]

theorem readValue_scalar (hc : OpensNothing c)
    (h : readScalar (c :: s ++ rest) = some (v, s.length + 1)) (hv : ∀ n, v = .integer n → limit.admits n = true) :
    Reads (readValue limit (c :: s ++ rest)) v rest := by
  rw [List.cons_append] at h ⊢
  rw [readValue.eq_def]
  dsimp only
  rw [if_neg hc.1, if_neg hc.2.1, if_neg hc.2.2]
  simp only [h, excess?_eq_none_iff.mpr hv]
  exact ⟨_, rfl, List.drop_left⟩

theorem readValue_string (h : Reads (readString t) u rest) :
    Reads (readValue limit (char '"' :: t)) (.string u) rest := by
  rw [readValue.eq_def]
  exact h.map (fun _ => rfl) fun _ => rfl

theorem readValue_empty_array (hskip : skipBlank t = char ']' :: rest) :
    Reads (readValue limit (char '[' :: t)) (.array []) rest := by
  rw [readValue.eq_def]
  dsimp only
  rw [if_neg (by decide), if_pos rfl]
  split
  · next u hu =>
    obtain ⟨-, rfl⟩ := List.cons.inj (hskip.symm.trans hu)
    exact ⟨_, rfl, rfl⟩
  · next hno => exact absurd hskip (hno rest)

theorem readValue_array (hne : u.head? ≠ some (char ']')) (hu : skipBlank t = u)
    (h : Reads (readItems limit u) vs rest) : Reads (readValue limit (char '[' :: t)) (.array vs) rest := by
  subst hu
  rw [readValue.eq_def]
  dsimp only
  rw [if_neg (by decide), if_pos rfl]
  split
  · next hu =>
    rw [hu] at hne
    exact absurd rfl hne
  · exact h.map (fun _ => rfl) fun _ => rfl

theorem readValue_empty_object (hskip : skipBlank t = char '\x7d' :: rest) :
    Reads (readValue limit (char '\x7b' :: t)) (.object []) rest := by
  rw [readValue.eq_def]
  dsimp only
  rw [if_neg (by decide), if_neg (by decide), if_pos rfl]
  split
  · next u hu =>
    obtain ⟨-, rfl⟩ := List.cons.inj (hskip.symm.trans hu)
    exact ⟨_, rfl, rfl⟩
  · next hno => exact absurd hskip (hno rest)

theorem readValue_object (hne : u.head? ≠ some (char '\x7d')) (hu : skipBlank t = u)
    (h : Reads (readMembers limit u) fields rest) :
    Reads (readValue limit (char '\x7b' :: t)) (.object fields) rest := by
  subst hu
  rw [readValue.eq_def]
  dsimp only
  rw [if_neg (by decide), if_neg (by decide), if_pos rfl]
  split
  · next hu =>
    rw [hu] at hne
    exact absurd rfl hne
  · exact h.map (fun _ => rfl) fun _ => rfl

theorem readValue_cases (h : Reads (readValue limit s) v rest) :
    (∃ t u, s = char '"' :: t ∧ v = .string u ∧ Reads (readString t) u rest) ∨
    (∃ t, s = char '[' :: t ∧ skipBlank t = char ']' :: rest ∧ v = .array []) ∨
    (∃ t vs, s = char '[' :: t ∧ v = .array vs ∧ Reads (readItems limit (skipBlank t)) vs rest) ∨
    (∃ t, s = char '\x7b' :: t ∧ skipBlank t = char '\x7d' :: rest ∧ v = .object []) ∨
    (∃ t fields, s = char '\x7b' :: t ∧ v = .object fields ∧
      Reads (readMembers limit (skipBlank t)) fields rest) ∨
    ∃ n, readScalar s = some (v, n) ∧ (∀ n, v = .integer n → limit.admits n = true) ∧ rest = s.drop n := by
  rw [readValue.eq_def] at h
  split at h
  · obtain ⟨r, h, -⟩ := h
    cases h
  · next c t =>
    split at h
    · next hc =>
      obtain ⟨u, hu, r, rfl⟩ := reads_of_map h fun _ => rfl
      exact .inl ⟨t, u, by rw [hc], rfl, hu⟩
    · split at h
      · next hc =>
        refine .inr ?_
        split at h
        · next u hu =>
          obtain ⟨r, h, rfl⟩ := h
          cases h
          exact .inl ⟨t, by rw [hc], hu, rfl⟩
        · obtain ⟨vs, hvs, r, rfl⟩ := reads_of_map h fun _ => rfl
          exact .inr (.inl ⟨t, vs, by rw [hc], rfl, hvs⟩)
      · split at h
        · next hc =>
          refine .inr (.inr (.inr ?_))
          split at h
          · next u hu =>
            obtain ⟨r, h, rfl⟩ := h
            cases h
            exact .inl ⟨t, by rw [hc], hu, rfl⟩
          · obtain ⟨vs, hvs, r, rfl⟩ := reads_of_map h fun _ => rfl
            exact .inr (.inl ⟨t, vs, by rw [hc], rfl, hvs⟩)
        · refine .inr (.inr (.inr (.inr (.inr ?_))))
          split at h
          · next w n hn =>
            split at h
            · obtain ⟨r, h, -⟩ := h
              cases h
            · next hw =>
              obtain ⟨r, h, rfl⟩ := h
              cases h
              exact ⟨n + 1, hn, excess?_eq_none_iff.mp hw, rfl⟩
          · obtain ⟨r, h, -⟩ := h
            cases h

theorem readItems_cons (hv : Reads (readValue limit s) v t)
    (h : vs = [] ∧ skipBlank t = char ']' :: rest ∨
      ∃ u, skipBlank t = char ',' :: u ∧ Reads (readItems limit (skipBlank u)) vs rest) :
    Reads (readItems limit s) (v :: vs) rest := by
  obtain ⟨r, hr, rfl⟩ := hv
  rw [readItems.eq_def, hr]
  dsimp only
  obtain ⟨rfl, ht⟩ | ⟨u, ht, h⟩ := h
  · split
    · next hnil => cases ht.symm.trans hnil
    · next c u hcons =>
      obtain ⟨rfl, rfl⟩ := List.cons.inj (ht.symm.trans hcons)
      exact ⟨_, if_pos rfl, rfl⟩
  · split
    · next hnil => cases ht.symm.trans hnil
    · next c u hcons =>
      obtain ⟨rfl, rfl⟩ := List.cons.inj (ht.symm.trans hcons)
      rw [if_neg (by decide), if_pos rfl]
      exact h.map (fun _ => rfl) fun _ => rfl

theorem readItems_cases (h : Reads (readItems limit s) vs rest) :
    ∃ v t ws, vs = v :: ws ∧ Reads (readValue limit s) v t ∧
    (ws = [] ∧ skipBlank t = char ']' :: rest ∨
      ∃ u, skipBlank t = char ',' :: u ∧ Reads (readItems limit (skipBlank u)) ws rest) := by
  rw [readItems.eq_def] at h
  split at h
  · obtain ⟨r, h, -⟩ := h
    cases h
  · next v q hq =>
    dsimp only at h
    refine ⟨v, q.text, ?_⟩
    split at h
    · obtain ⟨r, h, -⟩ := h
      cases h
    · next c t ht =>
      have hskip : skipBlank q.text = c :: t := ht
      split at h
      · next hc =>
        obtain ⟨r, h, rfl⟩ := h
        cases h
        exact ⟨[], rfl, ⟨q, hq, rfl⟩, .inl ⟨rfl, hskip.trans (congrArg (· :: t) hc)⟩⟩
      · split at h
        · next hc =>
          obtain ⟨ws, hws, r, rfl⟩ := reads_of_map h fun _ => rfl
          exact ⟨ws, rfl, ⟨q, hq, rfl⟩, .inr ⟨t, hskip.trans (congrArg (· :: t) hc), hws⟩⟩
        · obtain ⟨r, h, -⟩ := h
          cases h

theorem head_of_reads_items (h : Reads (readItems limit s) vs rest) : s.head? ≠ some (char ']') := by
  obtain ⟨v, t, -, -, hv, -⟩ := readItems_cases h
  intro hs
  obtain ⟨s, rfl⟩ := List.head?_eq_some_iff.mp hs
  obtain ⟨r, hr, -⟩ := hv
  rw [readValue.eq_def] at hr
  cases hr

theorem readMembers_cons {k q x : Text} (hk : Reads (readString s) k q) (hq : skipBlank q = char ':' :: x)
    (hv : Reads (readValue limit (skipBlank x)) v t)
    (h : fields = [] ∧ skipBlank t = char '\x7d' :: rest ∨
      ∃ u, skipBlank t = char ',' :: u ∧ Reads (readMembers limit (skipBlank u)) fields rest) :
    Reads (readMembers limit (char '"' :: s)) ((k, v) :: fields) rest := by
  obtain ⟨r, hr, rfl⟩ := hk
  rw [readMembers, hr]
  dsimp only
  split
  · next y hy =>
    obtain ⟨-, rfl⟩ := List.cons.inj (hq.symm.trans hy)
    obtain ⟨r', hr', rfl⟩ := hv
    rw [hr']
    dsimp only
    obtain ⟨rfl, ht⟩ | ⟨u, ht, h⟩ := h
    · split
      · next hnil => cases ht.symm.trans hnil
      · next c u hcons =>
        obtain ⟨rfl, rfl⟩ := List.cons.inj (ht.symm.trans hcons)
        exact ⟨_, if_pos rfl, rfl⟩
    · split
      · next hnil => cases ht.symm.trans hnil
      · next c u hcons =>
        obtain ⟨rfl, rfl⟩ := List.cons.inj (ht.symm.trans hcons)
        rw [if_neg (by decide), if_pos rfl]
        exact h.map (fun _ => rfl) fun _ => rfl
  · next hno => exact absurd hq (hno x)

theorem readMembers_cases (h : Reads (readMembers limit s) fields rest) : ∃ k s' q x v t more,
    s = char '"' :: s' ∧ fields = (k, v) :: more ∧ Reads (readString s') k q ∧ skipBlank q = char ':' :: x ∧
      Reads (readValue limit (skipBlank x)) v t ∧
      (more = [] ∧ skipBlank t = char '\x7d' :: rest ∨
        ∃ u, skipBlank t = char ',' :: u ∧ Reads (readMembers limit (skipBlank u)) more rest) := by
  rw [readMembers.eq_def] at h
  split at h
  · next s' =>
    split at h
    · obtain ⟨r, h, -⟩ := h
      cases h
    · next k q hk =>
      split at h
      · next x hx =>
        split at h
        · obtain ⟨r, h, -⟩ := h
          cases h
        · next v y hv =>
          split at h
          · obtain ⟨r, h, -⟩ := h
            cases h
          · next c t ht =>
            have hskip : skipBlank y.text = c :: t := ht
            split at h
            · next hc =>
              obtain ⟨r, h, rfl⟩ := h
              cases h
              exact ⟨k, s', q.text, x, v, y.text, [], rfl, rfl, ⟨q, hk, rfl⟩, hx, ⟨y, hv, rfl⟩,
                .inl ⟨rfl, hskip.trans (congrArg (· :: t) hc)⟩⟩
            · split at h
              · next hc =>
                obtain ⟨more, hmore, r, rfl⟩ := reads_of_map h fun _ => rfl
                exact ⟨k, s', q.text, x, v, y.text, more, rfl, rfl, ⟨q, hk, rfl⟩, hx, ⟨y, hv, rfl⟩,
                  .inr ⟨t, hskip.trans (congrArg (· :: t) hc), hmore⟩⟩
              · obtain ⟨r, h, -⟩ := h
                cases h
      · obtain ⟨r, h, -⟩ := h
        cases h
  · obtain ⟨r, h, -⟩ := h
    cases h

theorem head_of_reads_members (h : Reads (readMembers limit s) fields rest) : s.head? ≠ some (char '\x7d') := by
  obtain ⟨k, s, -, -, -, -, -, rfl, -⟩ := readMembers_cases h
  exact fun h => absurd (Option.some.inj h) (by decide)

theorem parse_of_reads (hs : s.head? ≠ some (char '\ufeff'))
    (h : Reads (readValue limit (skipBlank s)) v t) (ht : skipBlank t = []) : parse limit s = .ok v := by
  obtain ⟨r, hread, rfl⟩ := h
  have hskip : r.skip.text = [] := ht
  rw [parse]
  refine (if_neg hs).trans ?_
  rw [hread]
  dsimp only
  rw [hskip]

end ColorCensus.Json
