import ColorCensus.Proofs.Json.Parsing

namespace ColorCensus.Json

open Text CodePoint

def EndsWhole (w rest : Text) : Prop :=
  (∀ c ∈ rest.head?, ¬ IsWholePart (w ++ [c])) ∧
  (∀ f ds t, IsFraction f ds → rest = f ++ t → f = []) ∧ ∀ e k t, IsExponent e k → rest = e ++ t → e = []

inductive IsOverlong (limit : DigitLimit) : Text → Prop where
  | number {m w rest : Text} {negative : Bool} (hm : IsSign m negative) (hw : IsWholePart w)
    (hr : EndsWhole w rest) (hn : limit.admits (if negative then -ofDecimal w else ofDecimal w) = false) :
    IsOverlong limit (m ++ (w ++ rest))
  | item {items : List (Padded × Value)} {b s : Text} (hb : ∀ x ∈ items, x.1.IsLoose)
    (h : ∀ x ∈ items, IsValue limit x.1.text x.2) (hblank : IsBlank b) (hs : IsOverlong limit s) :
    IsOverlong limit (char '[' :: (items.flatMap (fun x => x.1.whole ++ [char ',']) ++ (b ++ s)))
  | member {members : List Member} {name : Padded} {key b s : Text} (hb : ∀ m ∈ members, m.IsLoose)
    (h : ∀ m ∈ members, m.IsSpelled limit) (hname : name.IsLoose) (hk : IsString name.text key)
    (hblank : IsBlank b) (hs : IsOverlong limit s) :
    IsOverlong limit (char '\x7b' :: (members.flatMap (fun m => m.whole ++ [char ',']) ++
      (name.whole ++ char ':' :: (b ++ s))))

def OverrunsIn (limit : DigitLimit) (s : Text) : Prop := ∃ b t, IsBlank b ∧ IsOverlong limit t ∧ s = b ++ t

def Overruns {α : Type} (x : Except Fault α) : Prop := ∃ f n, x = .error ⟨.tooManyDigits f, n⟩

variable {α β : Type} {s t u w m b rest : Text} {c : CodePoint} {v : Value} {n : ℤ} {k : ℕ} {negative : Bool}
  {limit : DigitLimit} {items : List (Padded × Value)} {members : List Member}

theorem overruns_error_iff {f : Fault} :
    Overruns (.error f : Except Fault α) ↔ Overruns (.error f : Except Fault β) := by
  simp [Overruns]

theorem overruns_map_iff {x : Except Fault α} {f : α → β} : Overruns (x.map f) ↔ Overruns x := by
  cases x with
  | error f => simp [Overruns, Except.map]
  | ok a => simp [Overruns, Except.map]

theorem not_overruns_readCharacters (s : Text) : ¬ Overruns (readCharacters s) := by
  fun_induction readCharacters s with
  | case5 | case7 | case9 => rwa [overruns_map_iff]
  | _ => rintro ⟨f, n, ⟨⟩⟩

theorem not_overruns_readString (s : Text) : ¬ Overruns (readString s) := by
  have hcharacters := not_overruns_readCharacters s
  rw [readString]
  cases hs : readCharacters s with
  | ok y => rintro ⟨f, n, ⟨⟩⟩
  | error g =>
    rintro ⟨f, n, h⟩
    refine hcharacters ⟨f, n, hs.trans ?_⟩
    have hquoted : g.quoted s = ⟨.tooManyDigits f, n⟩ := Except.error.inj h
    unfold Fault.quoted at hquoted
    split at hquoted
    · cases hquoted
    · rw [hquoted]

theorem overruns_readItems_iff : Overruns (readItems limit s) ↔ Overruns (readValue limit s) ∨
    ∃ v t u, Reads (readValue limit s) v t ∧ skipBlank t = char ',' :: u ∧
      Overruns (readItems limit (skipBlank u)) := by
  rw [readItems.eq_def]
  cases hs : readValue limit s with
  | error f =>
    refine ⟨fun h => .inl (overruns_error_iff.mp h), ?_⟩
    rintro (h | ⟨v, t, u, ⟨r, ⟨⟩, -⟩, -⟩)
    exact overruns_error_iff.mp h
  | ok y =>
    obtain ⟨v, q⟩ := y
    dsimp only
    constructor
    · intro h
      refine .inr ⟨v, q.text, ?_⟩
      split at h
      · obtain ⟨f, n, ⟨⟩⟩ := h
      · next c t ht =>
        have hskip : skipBlank q.text = c :: t := ht
        split at h
        · obtain ⟨f, n, ⟨⟩⟩ := h
        · split at h
          · next hc => exact ⟨t, ⟨q, rfl, rfl⟩, hskip.trans (congrArg (· :: t) hc), overruns_map_iff.mp h⟩
          · obtain ⟨f, n, ⟨⟩⟩ := h
    · rintro (⟨f, n, ⟨⟩⟩ | ⟨v, t, u, ⟨r, ⟨⟩, rfl⟩, hu, h⟩)
      split
      · next hnil => cases hu.symm.trans hnil
      · next c t hcons =>
        obtain ⟨rfl, rfl⟩ := List.cons.inj (hu.symm.trans hcons)
        rw [if_neg (by decide), if_pos rfl, overruns_map_iff]
        exact h

theorem overruns_readScalar {t : Text} (hc : OpensNothing c) (h : readScalar (c :: t) = some (.integer n, k + 1))
    (hn : limit.admits n = false) : Overruns (readValue limit (c :: t)) := by
  rw [readValue.eq_def]
  dsimp only
  rw [if_neg hc.1, if_neg hc.2.1, if_neg hc.2.2]
  simp only [h]
  cases hx : excess? limit (.integer n) with
  | none =>
    rw [excess?_eq_none_iff.mp hx n rfl] at hn
    cases hn
  | some f => exact ⟨f, _, rfl⟩

theorem overruns_readMembers_iff : Overruns (readMembers limit s) ↔
    ∃ key s' q x, s = char '"' :: s' ∧ Reads (readString s') key q ∧ skipBlank q = char ':' :: x ∧
      (Overruns (readValue limit (skipBlank x)) ∨ ∃ v t u, Reads (readValue limit (skipBlank x)) v t ∧
        skipBlank t = char ',' :: u ∧ Overruns (readMembers limit (skipBlank u))) := by
  constructor
  · intro h
    rw [readMembers.eq_def] at h
    split at h
    · next s' =>
      split at h
      · next f hf =>
        have hstring := not_overruns_readString s'
        rw [hf] at hstring
        exact absurd (overruns_error_iff.mp h) hstring
      · next key q hk =>
        split at h
        · next x hx =>
          refine ⟨key, s', q.text, x, rfl, ⟨q, hk, rfl⟩, hx, ?_⟩
          split at h
          · next f hf =>
            rw [hf]
            exact .inl (overruns_error_iff.mp h)
          · next v y hv =>
            refine .inr ⟨v, y.text, ?_⟩
            split at h
            · obtain ⟨f, n, ⟨⟩⟩ := h
            · next c t ht =>
              have hskip : skipBlank y.text = c :: t := ht
              split at h
              · obtain ⟨f, n, ⟨⟩⟩ := h
              · split at h
                · next hc =>
                  exact ⟨t, ⟨y, hv, rfl⟩, hskip.trans (congrArg (· :: t) hc), overruns_map_iff.mp h⟩
                · obtain ⟨f, n, ⟨⟩⟩ := h
        · obtain ⟨f, n, ⟨⟩⟩ := h
    · obtain ⟨f, n, ⟨⟩⟩ := h
  · rintro ⟨key, s', q, x, rfl, ⟨r, hr, rfl⟩, hq, h⟩
    rw [readMembers, hr]
    dsimp only
    split
    · next y hy =>
      obtain ⟨-, rfl⟩ := List.cons.inj (hq.symm.trans hy)
      obtain ⟨f, n, h⟩ | ⟨v, t, u, ⟨r', hr', rfl⟩, hu, h⟩ := h
      · rw [h]
        exact ⟨f, n, rfl⟩
      · rw [hr']
        dsimp only
        split
        · next hnil => cases hu.symm.trans hnil
        · next c t hcons =>
          obtain ⟨rfl, rfl⟩ := List.cons.inj (hu.symm.trans hcons)
          rw [if_neg (by decide), if_pos rfl, overruns_map_iff]
          exact h
    · next hno => exact absurd hq (hno x)

theorem exists_of_excess? {f : TooManyDigits} (h : excess? limit v = some f) :
    ∃ n, v = .integer n ∧ limit.admits n = false := by
  cases v with
  | integer n =>
    have hx : limit.excess? n = some f := h
    exact ⟨n, rfl, by rw [DigitLimit.admits, hx]; rfl⟩
  | _ => cases h

theorem opensNothing_of_readScalar (h : readScalar s = some (v, k)) : ∃ c t, s = c :: t ∧ OpensNothing c := by
  obtain ⟨w, t, rfl, -, hw | hw⟩ := cases_of_readScalar h
  · obtain ⟨c, u, rfl, -, hc⟩ := hw.exists_cons
    exact ⟨c, u ++ t, rfl, hc⟩
  · obtain ⟨c, u, rfl, -, hc⟩ := hw.exists_start
    exact ⟨c, u ++ t, rfl, hc⟩

theorem head_of_overruns_items (h : Overruns (readItems limit s)) : s.head? ≠ some (char ']') := by
  intro hs
  obtain ⟨t, rfl⟩ := List.head?_eq_some_iff.mp hs
  rcases overruns_readItems_iff.mp h with ⟨f, n, hr⟩ | ⟨v, t, u, ⟨r, hr, -⟩, -⟩
  · rw [readValue.eq_def] at hr
    cases hr
  · rw [readValue.eq_def] at hr
    cases hr

theorem head_of_overruns_members (h : Overruns (readMembers limit s)) : s.head? ≠ some (char '\x7d') := by
  obtain ⟨key, s', q, x, rfl, -⟩ := overruns_readMembers_iff.mp h
  exact fun h => absurd (Option.some.inj h) (by decide)

theorem overruns_readValue_iff : Overruns (readValue limit s) ↔
    (∃ t, s = char '[' :: t ∧ Overruns (readItems limit (skipBlank t))) ∨
    (∃ t, s = char '\x7b' :: t ∧ Overruns (readMembers limit (skipBlank t))) ∨
    ∃ n k, readScalar s = some (.integer n, k + 1) ∧ limit.admits n = false := by
  constructor
  · intro h
    rw [readValue.eq_def] at h
    split at h
    · obtain ⟨f, n, ⟨⟩⟩ := h
    · next c t =>
      split at h
      · exact absurd (overruns_map_iff.mp h) (not_overruns_readString t)
      · split at h
        · next hc =>
          subst hc
          split at h
          · obtain ⟨f, n, ⟨⟩⟩ := h
          · exact .inl ⟨t, rfl, overruns_map_iff.mp h⟩
        · split at h
          · next hc =>
            subst hc
            split at h
            · obtain ⟨f, n, ⟨⟩⟩ := h
            · exact .inr (.inl ⟨t, rfl, overruns_map_iff.mp h⟩)
          · split at h
            · next v k hv =>
              split at h
              · next f hf =>
                obtain ⟨n, rfl, hn⟩ := exists_of_excess? hf
                exact .inr (.inr ⟨n, k, hv, hn⟩)
              · obtain ⟨f, n, ⟨⟩⟩ := h
            · obtain ⟨f, n, ⟨⟩⟩ := h
  · rintro (⟨t, rfl, h⟩ | ⟨t, rfl, h⟩ | ⟨n, k, h, hn⟩)
    · rw [readValue.eq_def]
      dsimp only
      rw [if_neg (by decide), if_pos rfl]
      split
      · next u hu =>
        rw [hu] at h
        exact absurd rfl (head_of_overruns_items h)
      · exact overruns_map_iff.mpr h
    · rw [readValue.eq_def]
      dsimp only
      rw [if_neg (by decide), if_neg (by decide), if_pos rfl]
      split
      · next u hu =>
        rw [hu] at h
        exact absurd rfl (head_of_overruns_members h)
      · exact overruns_map_iff.mpr h
    · obtain ⟨c, t, rfl, hc⟩ := opensNothing_of_readScalar h
      exact overruns_readScalar hc h hn

theorem le_wholeLength_append (hw : IsWholePart w) (t : Text) : w.length ≤ wholeLength (w ++ t) := by
  rcases hw with rfl | ⟨⟨h0, hds⟩, hzero⟩
  · exact le_rfl
  · rw [wholeLength_of_head (by rwa [List.head?_append_of_ne_nil _ h0]), Decimal.digitsLength,
      List.takeWhile_append_of_pos hds, List.length_append]
    exact Nat.le_add_right ..

theorem fractionLength_eq_zero_iff : fractionLength s = 0 ↔ ∀ f ds t, IsFraction f ds → s = f ++ t → f = [] := by
  constructor
  · rintro h f ds t hf rfl
    cases hf with
    | none => rfl
    | digits hds =>
      obtain ⟨c, ds, rfl, hc⟩ := hds.exists_cons
      simp [fractionLength, Decimal.digitsLength, hc] at h
  · intro h
    obtain ⟨f, ds, t, rfl, hf, hlen⟩ := exists_fraction s
    rw [hlen, h f ds t hf rfl, List.length_nil]

theorem exponentLength_eq_zero_iff :
    Decimal.exponentLength s = 0 ↔ ∀ e k t, IsExponent e k → s = e ++ t → e = [] := by
  constructor
  · rintro h e k t he rfl
    cases he with
    | none => rfl
    | digits he hm hds =>
      rw [List.cons_append, List.append_assoc, Decimal.exponentLength, (readSign_append hm hds t).1,
        List.drop_left] at h
      obtain ⟨c, ds, rfl, hc⟩ := hds.exists_cons
      simp [he, Decimal.digitsLength, hc] at h
  · intro h
    obtain ⟨e, k, t, rfl, he, hlen⟩ := exists_exponent s
    rw [hlen, h e k t he rfl, List.length_nil]

theorem IsWholePart.concat (hw : IsWholePart w) (hc : c.isDigit = true) (h0 : w ≠ [char '0']) :
    IsWholePart (w ++ [c]) := by
  obtain rfl | ⟨⟨hne, hds⟩, hzero⟩ := hw
  · exact absurd rfl h0
  · refine .inr ⟨⟨by simp, ?_⟩, by rwa [List.head?_append_of_ne_nil _ hne]⟩
    simpa [or_imp, forall_and] using ⟨hds, hc⟩

theorem wholeLength_append_iff (hw : IsWholePart w) :
    wholeLength (w ++ rest) = w.length ↔ ∀ c ∈ rest.head?, ¬ IsWholePart (w ++ [c]) := by
  constructor
  · intro h c hc hwhole
    obtain ⟨t, rfl⟩ := List.head?_eq_some_iff.mp hc
    have hle := le_wholeLength_append hwhole t
    rw [List.append_assoc, List.singleton_append, h, List.length_append, List.length_singleton] at hle
    omega
  · intro h
    by_cases h0 : w = [char '0']
    · rw [h0]
      rfl
    · refine wholeLength_append hw fun c hc => ?_
      by_contra hdigit
      exact h c hc (hw.concat (by simpa using hdigit) h0)

theorem endsWhole_iff (hw : IsWholePart w) : EndsWhole w rest ↔
    wholeLength (w ++ rest) = w.length ∧ fractionLength rest = 0 ∧ Decimal.exponentLength rest = 0 := by
  rw [wholeLength_append_iff hw, fractionLength_eq_zero_iff, exponentLength_eq_zero_iff]
  rfl

theorem readScalar_whole (hm : IsSign m negative) (hw : IsWholePart w) (hr : EndsWhole w rest) :
    readScalar (m ++ (w ++ rest)) =
      some (.integer (if negative then -ofDecimal w else ofDecimal w), (m ++ w).length) := by
  obtain ⟨hwhole, hfraction, hexponent⟩ := (endsWhole_iff hw).mp hr
  rw [← List.append_assoc, readScalar_eq_readNumber (.whole hm hw), List.append_assoc]
  exact readNumber_whole hm hw hwhole hfraction hexponent

theorem exists_of_readScalar_integer (h : readScalar s = some (.integer n, k)) :
    ∃ m w rest negative, s = m ++ (w ++ rest) ∧ IsSign m negative ∧ IsWholePart w ∧ EndsWhole w rest ∧
      n = (if negative then -ofDecimal w else ofDecimal w : ℤ) := by
  rw [readScalar] at h
  split at h
  · next w hw =>
    obtain ⟨hv, -⟩ := Prod.mk.inj (Option.some.inj h)
    exact absurd hv (ne_integer_of_isWord (mem_words_iff.mp (List.mem_of_find?_eq_some hw)) n)
  · obtain ⟨m, w, f, ds, e, k, negative, s, rfl, hm, hw, hf, he, hwlen, hflen, helen⟩ := exists_parts h
    by_cases hnone : f = [] ∧ e = []
    · obtain ⟨rfl, rfl⟩ := hnone
      simp only [List.nil_append] at *
      rw [readNumber_whole hm hw hwlen hflen helen] at h
      cases h
      exact ⟨m, w, s, negative, rfl, hm, hw, (endsWhole_iff hw).mpr ⟨hwlen, hflen, helen⟩, rfl⟩
    · rw [readNumber_real hm hw hf he (not_and_or.mp hnone) hwlen hflen helen] at h
      cases h

theorem IsOverlong.head (h : IsOverlong limit s) : ∀ c ∈ s.head?, IsStart c := by
  cases h with
  | @number m w rest _ hm hw =>
    obtain ⟨c, t, hs, hc, -⟩ := (IsNumber.whole hm hw).exists_start
    rw [← List.append_assoc, hs]
    rintro d ⟨⟩
    exact hc
  | item =>
    rintro c ⟨⟩
    decide
  | member =>
    rintro c ⟨⟩
    decide

theorem skipBlank_of_isOverlong (hb : IsBlank b) (h : IsOverlong limit s) : skipBlank (b ++ s) = s :=
  skipBlank_append hb fun c hc => (h.head c hc).1

theorem overruns_items (hb : ∀ x ∈ items, x.1.IsLoose) (h : ∀ x ∈ items, IsValue limit x.1.text x.2)
    (hs : Overruns (readItems limit (skipBlank s))) :
    Overruns (readItems limit (skipBlank (items.flatMap (fun x => x.1.whole ++ [char ',']) ++ s))) := by
  induction items with
  | nil => exact hs
  | cons x items ih =>
    obtain ⟨hbx, hb⟩ := List.forall_mem_cons.mp hb
    obtain ⟨hx, h⟩ := List.forall_mem_cons.mp h
    rw [List.flatMap_cons, List.append_assoc, List.append_assoc, List.singleton_append]
    refine overruns_readItems_iff.mpr (.inr ⟨_, _, _, reads_body hbx hx (isReadAs_of_isValue hx) ?_,
      skipBlank_append hbx.2 ?_, ih hb h⟩)
    · rintro c ⟨⟩
      exact .inl rfl
    · rintro c ⟨⟩
      decide

theorem overruns_members (hb : ∀ m ∈ members, m.IsLoose) (h : ∀ m ∈ members, m.IsSpelled limit)
    (hs : Overruns (readMembers limit (skipBlank s))) :
    Overruns (readMembers limit (skipBlank (members.flatMap (fun m => m.whole ++ [char ',']) ++ s))) := by
  induction members with
  | nil => exact hs
  | cons m members ih =>
    obtain ⟨hbm, hb⟩ := List.forall_mem_cons.mp hb
    obtain ⟨hm, h⟩ := List.forall_mem_cons.mp h
    rw [List.flatMap_cons, List.append_assoc, List.append_assoc, List.singleton_append, Member.whole_append]
    obtain ⟨t, q, hname, hk, hq⟩ := exists_name hbm.1 hm.1 (m.body.whole ++
      char ',' :: (members.flatMap (fun m => m.whole ++ [char ',']) ++ s))
    rw [hname]
    refine overruns_readMembers_iff.mpr ⟨_, _, _, _, rfl, hk, hq, .inr ⟨_, _, _,
      reads_body hbm.2 hm.2 (isReadAs_of_isValue hm.2) ?_, skipBlank_append hbm.2.2 ?_, ih hb h⟩⟩
    · rintro c ⟨⟩
      exact .inl rfl
    · rintro c ⟨⟩
      decide

theorem overruns_of_isOverlong (h : IsOverlong limit s) : Overruns (readValue limit s) := by
  induction h with
  | @number m w rest negative hm hw hr hn =>
    refine overruns_readValue_iff.mpr (.inr (.inr ⟨_, (m ++ w).length - 1, ?_, hn⟩))
    have h0 : 0 < (m ++ w).length := by
      rw [List.length_append]
      exact Nat.add_pos_right _ (List.length_pos_iff.mpr hw.isDigits.1)
    rw [readScalar_whole hm hw hr, Nat.sub_add_cancel h0]
  | item hb h hblank hs ih =>
    refine overruns_readValue_iff.mpr (.inl ⟨_, rfl, overruns_items hb h ?_⟩)
    rw [skipBlank_of_isOverlong hblank hs]
    exact overruns_readItems_iff.mpr (.inl ih)
  | member hb h hname hk hblank hs ih =>
    refine overruns_readValue_iff.mpr (.inr (.inl ⟨_, rfl, overruns_members hb h ?_⟩))
    obtain ⟨t, q, hskip, hkey, hq⟩ := exists_name hname hk _
    rw [hskip]
    refine overruns_readMembers_iff.mpr ⟨_, _, _, _, rfl, hkey, hq, .inl ?_⟩
    rwa [skipBlank_of_isOverlong hblank hs]

def IsExact (limit : DigitLimit) (s : Text) : Prop := Overruns (readValue limit s) → IsOverlong limit s

theorem exists_item (hs : ∀ t : Text, t.length ≤ s.length → IsExact limit t) (h : Overruns (readItems limit s))
    (hb : IsBlank b) : ∃ items : List (Padded × Value), ∃ b' t, (∀ x ∈ items, x.1.IsLoose) ∧
      (∀ x ∈ items, IsValue limit x.1.text x.2) ∧ IsBlank b' ∧ IsOverlong limit t ∧
      b ++ s = items.flatMap (fun x => x.1.whole ++ [char ',']) ++ (b' ++ t) := by
  induction hlen : s.length using Nat.strongRecOn generalizing s b with
  | _ length ih =>
    rcases overruns_readItems_iff.mp h with hvalue | ⟨v, t, u, hv, ht, hu⟩
    · exact ⟨[], b, s, by simp, by simp, hb, hs s le_rfl hvalue, rfl⟩
    · obtain ⟨w, rfl, hw⟩ := isFaithful s v t hv
      obtain ⟨a, ha, hafter⟩ := exists_blank t
      rw [ht] at ha
      obtain ⟨b', hb', hbefore⟩ := exists_blank u
      have hlt : (skipBlank u).length < (w ++ t).length := by
        have hle := skipBlank_length_le u
        simp only [ha, List.length_append, List.length_cons]
        omega
      obtain ⟨items, b'', t', hloose, hitems, hblank, ht', heq⟩ :=
        ih _ (hlen ▸ hlt) (fun t ht => hs t (ht.trans hlt.le)) hu hbefore rfl
      rw [← hb'] at heq
      refine ⟨(⟨b, w, a⟩, v) :: items, b'', t', List.forall_mem_cons.mpr ⟨⟨hb, hafter⟩, hloose⟩,
        List.forall_mem_cons.mpr ⟨hw, hitems⟩, hblank, ht', ?_⟩
      rw [ha, heq]
      simp [Padded.whole]

theorem exists_member (hs : ∀ t : Text, t.length ≤ s.length → IsExact limit t) (h : Overruns (readMembers limit s))
    (hb : IsBlank b) : ∃ members : List Member, ∃ name : Padded, ∃ key b' t, (∀ m ∈ members, m.IsLoose) ∧
      (∀ m ∈ members, m.IsSpelled limit) ∧ name.IsLoose ∧ IsString name.text key ∧ IsBlank b' ∧
      IsOverlong limit t ∧ b ++ s = members.flatMap (fun m => m.whole ++ [char ',']) ++
        (name.whole ++ char ':' :: (b' ++ t)) := by
  induction hlen : s.length using Nat.strongRecOn generalizing s b with
  | _ length ih =>
    obtain ⟨key, s, q, x, rfl, hk, hq, hx⟩ := overruns_readMembers_iff.mp h
    obtain ⟨k, rfl, hspells⟩ := spells_of_readCharacters (reads_readString_iff.mp hk)
    obtain ⟨after, hafter, hblank⟩ := exists_blank q
    rw [hq] at hafter
    obtain ⟨lead, hlead, hbefore⟩ := exists_blank x
    have hle : (skipBlank x).length ≤ (char '"' :: (k ++ char '"' :: q)).length := by
      have hle := skipBlank_length_le x
      simp only [hafter, List.length_append, List.length_cons]
      omega
    let name : Padded := ⟨b, char '"' :: (k ++ [char '"']), after⟩
    have hwhole : b ++ char '"' :: (k ++ char '"' :: q) = name.whole ++ char ':' :: (lead ++ skipBlank x) := by
      rw [hafter, ← hlead]
      simp [name, Padded.whole]
    rw [hwhole]
    rcases hx with hvalue | ⟨v, t, u, hv, ht, hu⟩
    · exact ⟨[], name, key, lead, skipBlank x, by simp, by simp, ⟨hb, hblank⟩, .quoted hspells, hbefore,
        hs _ hle hvalue, rfl⟩
    · obtain ⟨w, hw, hvalue⟩ := isFaithful (skipBlank x) v t hv
      obtain ⟨trail, htrail, hend⟩ := exists_blank t
      rw [ht] at htrail
      obtain ⟨b', hb', hmore⟩ := exists_blank u
      have hlt : (skipBlank u).length < (char '"' :: (k ++ char '"' :: q)).length := by
        have hskip := skipBlank_length_le u
        have hlength := congrArg List.length hw
        simp only [htrail, List.length_append, List.length_cons] at hlength hle ⊢
        omega
      obtain ⟨members, name', key', b'', t', hloose, hspelled, hname, hkey, hb'', ht', heq⟩ :=
        ih _ (hlen ▸ hlt) (fun t ht => hs t (ht.trans hlt.le)) hu hmore rfl
      rw [← hb'] at heq
      refine ⟨⟨name, key, ⟨lead, w, trail⟩, v⟩ :: members, name', key', b'', t',
        List.forall_mem_cons.mpr ⟨⟨⟨hb, hblank⟩, hbefore, hend⟩, hloose⟩,
        List.forall_mem_cons.mpr ⟨⟨.quoted hspells, hvalue⟩, hspelled⟩, hname, hkey, hb'', ht', ?_⟩
      rw [hw, htrail, heq]
      simp [Member.whole, Padded.whole]

theorem isExact (s : Text) : IsExact limit s := by
  induction hlen : s.length using Nat.strongRecOn generalizing s with
  | _ length ih =>
    have hbelow {c : CodePoint} {u : Text} (hs : s = c :: u) (t : Text) (ht : t.length ≤ (skipBlank u).length) :
        IsExact limit t := by
      refine ih _ ?_ t rfl
      have hle := skipBlank_length_le u
      rw [← hlen, hs, List.length_cons]
      omega
    intro h
    rcases overruns_readValue_iff.mp h with ⟨t, rfl, ht⟩ | ⟨t, rfl, ht⟩ | ⟨n, k, hn, hlong⟩
    · obtain ⟨b, hb, hblank⟩ := exists_blank t
      obtain ⟨items, b', u, hloose, hitems, hb', hu, heq⟩ := exists_item (hbelow rfl) ht hblank
      rw [hb, heq]
      exact .item hloose hitems hb' hu
    · obtain ⟨b, hb, hblank⟩ := exists_blank t
      obtain ⟨members, name, key, b', u, hloose, hmembers, hname, hkey, hb', hu, heq⟩ :=
        exists_member (hbelow rfl) ht hblank
      rw [hb, heq]
      exact .member hloose hmembers hname hkey hb' hu
    · obtain ⟨m, w, rest, negative, rfl, hm, hw, hr, rfl⟩ := exists_of_readScalar_integer hn
      exact .number hm hw hr hlong

theorem overruns_parse_iff : Overruns (parse limit s) ↔ OverrunsIn limit s := by
  constructor
  · intro h
    rw [parse] at h
    split at h
    · obtain ⟨f, n, ⟨⟩⟩ := h
    · split at h
      · next f hf =>
        obtain ⟨b, hb, hblank⟩ := exists_blank s
        refine ⟨b, skipBlank s, hblank, isExact (skipBlank s) ?_, hb⟩
        rw [hf]
        exact overruns_error_iff.mp h
      · split at h
        · obtain ⟨f, n, ⟨⟩⟩ := h
        · obtain ⟨f, n, ⟨⟩⟩ := h
  · rintro ⟨b, t, hb, ht, rfl⟩
    have hvalue := overruns_of_isOverlong ht
    rw [← skipBlank_of_isOverlong hb ht] at hvalue
    obtain ⟨f, n, h⟩ := hvalue
    refine ⟨f, n, (if_neg (head_blank_append hb ht.head)).trans ?_⟩
    rw [h]

end ColorCensus.Json
