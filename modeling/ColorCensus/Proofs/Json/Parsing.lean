import ColorCensus.Proofs.Json.Grammar
import ColorCensus.Proofs.Text.Digits

namespace ColorCensus.Json

open Text CodePoint

variable {s t u w b k rest : Text} {c : CodePoint} {v : Value} {vs : List Value} {p : Padded}
  {items : List (Padded × Value)} {members : List Member} {fields : List (Text × Value)}
  {limit : DigitLimit}

def IsStart (c : CodePoint) : Prop :=
  isBlankMark c = false ∧ c ≠ char ']' ∧ c ≠ char '\x7d' ∧ c ≠ char '\ufeff'

instance (c : CodePoint) : Decidable (IsStart c) := inferInstanceAs (Decidable (_ ∧ _))

theorem isStart_of_isDigit (h : c.isDigit = true) : IsStart c ∧ OpensNothing c := by
  have hd : ∀ d : Fin 10, IsStart (.char (Char.ofNat (48 + d))) ∧
      OpensNothing (.char (Char.ofNat (48 + d))) := by decide
  obtain ⟨d, rfl⟩ := exists_of_isDigit h
  exact hd d

def EndsItem (rest : Text) : Prop :=
  ∀ c ∈ rest.head?, c = char ',' ∨ c = char ']' ∨ c = char '\x7d' ∨ isBlankMark c = true

theorem EndsItem.stopsNumber (h : EndsItem rest) : StopsNumber rest := by
  intro c hc
  rcases h c hc with rfl | rfl | rfl | hb
  · decide
  · decide
  · decide
  · simp only [isBlankMark, Bool.or_eq_true, beq_iff_eq] at hb
    rcases hb with ((rfl | rfl) | rfl) | rfl <;> decide

theorem endsItem_append (hb : IsBlank b) (h : EndsItem rest) : EndsItem (b ++ rest) := by
  cases b with
  | nil => exact h
  | cons c b =>
    rintro d ⟨⟩
    exact .inr (.inr (.inr (hb c List.mem_cons_self)))

theorem skipBlank_append (hb : IsBlank b) (h : ∀ c ∈ s.head?, isBlankMark c = false) : skipBlank (b ++ s) = s :=
  dropWhile_append_of_head? hb h

theorem IsWord.exists_cons (h : IsWord s v) : ∃ c t, s = c :: t ∧ IsStart c ∧ OpensNothing c := by
  cases h <;> exact ⟨_, _, rfl, by decide⟩

theorem ne_integer_of_isWord (h : IsWord s v) (n : ℤ) : v ≠ .integer n := by
  cases h <;> exact nofun

theorem IsNumber.exists_start (h : IsNumber s v) : ∃ c t, s = c :: t ∧ IsStart c ∧ OpensNothing c := by
  obtain ⟨c, t, hc, rfl | rfl⟩ := h.exists_cons
  · exact ⟨c, t, rfl, isStart_of_isDigit hc⟩
  · exact ⟨_, _, rfl, by decide⟩

theorem IsValue.exists_cons (h : IsValue limit s v) : ∃ c t, s = c :: t ∧ IsStart c := by
  cases h with
  | word h =>
    obtain ⟨c, t, hs, hc, -⟩ := h.exists_cons
    exact ⟨c, t, hs, hc⟩
  | number h =>
    obtain ⟨c, t, hs, hc, -⟩ := h.exists_start
    exact ⟨c, t, hs, hc⟩
  | string h =>
    cases h
    exact ⟨_, _, rfl, by decide⟩
  | emptyArray => exact ⟨_, _, rfl, by decide⟩
  | array => exact ⟨_, _, rfl, by decide⟩
  | emptyObject => exact ⟨_, _, rfl, by decide⟩
  | object => exact ⟨_, _, rfl, by decide⟩

theorem IsValue.head (h : IsValue limit s v) (t : Text) : ∀ c ∈ (s ++ t).head?, IsStart c := by
  obtain ⟨c, u, rfl, hc⟩ := h.exists_cons
  rintro d ⟨⟩
  exact hc

theorem head_blank_append (hb : IsBlank b) (h : ∀ c ∈ s.head?, IsStart c) : (b ++ s).head? ≠ some (char '\ufeff') := by
  intro hmark
  cases b with
  | nil => exact (h _ hmark).2.2.2 rfl
  | cons c b =>
    obtain rfl := Option.some.inj hmark
    exact absurd (hb _ List.mem_cons_self) (by decide)

def IsReadAs (limit : DigitLimit) (s : Text) (v : Value) : Prop :=
  ∀ rest, EndsItem rest → Reads (readValue limit (s ++ rest)) v rest

theorem isReadAs_scalar (hs : ∃ c t, s = c :: t ∧ IsStart c ∧ OpensNothing c)
    (h : ∀ rest, EndsItem rest → readScalar (s ++ rest) = some (v, s.length))
    (hv : ∀ n, v = .integer n → limit.admits n = true) : IsReadAs limit s v := by
  obtain ⟨c, t, rfl, -, hc⟩ := hs
  exact fun rest hr => readValue_scalar hc (h rest hr) hv

theorem Padded.whole_append (p : Padded) (s : Text) : p.whole ++ s = p.before ++ (p.text ++ (p.after ++ s)) := by
  simp only [whole, List.append_assoc]

theorem reads_body (hb : p.IsLoose) (hv : IsValue limit p.text v) (hread : IsReadAs limit p.text v)
    (htail : EndsItem rest) : Reads (readValue limit (skipBlank (p.whole ++ rest))) v (p.after ++ rest) := by
  rw [Padded.whole_append, skipBlank_append hb.1 fun c hc => (hv.head _ c hc).1]
  exact hread _ (endsItem_append hb.2 htail)

theorem reads_items (h0 : items ≠ []) (hb : ∀ x ∈ items, x.1.IsLoose)
    (h : ∀ x ∈ items, IsValue limit x.1.text x.2) (hread : ∀ x ∈ items, IsReadAs limit x.1.text x.2) (rest : Text) :
    Reads (readItems limit (skipBlank (join [char ','] (items.map (·.1.whole)) ++ char ']' :: rest)))
      (items.map Prod.snd) rest := by
  induction items with
  | nil => exact absurd rfl h0
  | cons x items ih =>
    obtain ⟨hbx, hb⟩ := List.forall_mem_cons.mp hb
    obtain ⟨hx, h⟩ := List.forall_mem_cons.mp h
    obtain ⟨hxread, hread⟩ := List.forall_mem_cons.mp hread
    cases items with
    | nil =>
      have hjoin : join [char ','] ([x].map (·.1.whole)) = x.1.whole := List.intercalate_singleton
      rw [hjoin]
      refine readItems_cons (reads_body hbx hx hxread ?_) (.inl ⟨rfl, skipBlank_append hbx.2 ?_⟩)
      · rintro c ⟨⟩
        exact .inr (.inl rfl)
      · rintro c ⟨⟩
        decide
    | cons y items =>
      have hjoin : join [char ','] ((x :: y :: items).map (·.1.whole)) ++ char ']' :: rest =
          x.1.whole ++ char ',' :: (join [char ','] ((y :: items).map (·.1.whole)) ++ char ']' :: rest) := by
        simp [join, List.intercalate_cons_cons]
      rw [hjoin]
      refine readItems_cons (reads_body hbx hx hxread ?_)
        (.inr ⟨_, skipBlank_append hbx.2 ?_, ih (List.cons_ne_nil y items) hb h hread⟩)
      · rintro c ⟨⟩
        exact .inl rfl
      · rintro c ⟨⟩
        decide

theorem exists_name {name : Padded} (hb : name.IsLoose) (h : IsString name.text k) (x : Text) :
    ∃ s q, skipBlank (name.whole ++ char ':' :: x) = char '"' :: s ∧ Reads (readString s) k q ∧
      skipBlank q = char ':' :: x := by
  obtain ⟨before, text, after⟩ := name
  obtain @⟨s, _, hspells⟩ := h
  have hwhole : Padded.whole ⟨before, char '"' :: (s ++ [char '"']), after⟩ ++ char ':' :: x =
      before ++ (char '"' :: (s ++ char '"' :: (after ++ char ':' :: x))) := by
    simp [Padded.whole]
  refine ⟨s ++ char '"' :: (after ++ char ':' :: x), after ++ char ':' :: x, ?_, ?_, ?_⟩
  · rw [hwhole]
    exact skipBlank_append hb.1 (by rintro c ⟨⟩; decide)
  · exact reads_readString_iff.mpr (readCharacters_of_spells hspells _)
  · exact skipBlank_append hb.2 (by rintro c ⟨⟩; decide)

theorem Member.whole_append (m : Member) (s : Text) :
    m.whole ++ s = m.name.whole ++ char ':' :: (m.body.whole ++ s) := by
  rw [whole, List.append_assoc, List.cons_append]

theorem reads_member {m : Member} {tail : Text} (hb : m.IsLoose) (hs : m.IsSpelled limit)
    (hread : IsReadAs limit m.body.text m.value)
    (h : fields = [] ∧ tail = char '\x7d' :: rest ∨
      ∃ u, tail = char ',' :: u ∧ Reads (readMembers limit (skipBlank u)) fields rest) :
    Reads (readMembers limit (skipBlank (m.whole ++ tail))) ((m.key, m.value) :: fields) rest := by
  obtain ⟨s, q, hname, hk, hq⟩ := exists_name hb.1 hs.1 (m.body.whole ++ tail)
  rw [Member.whole_append, hname]
  refine readMembers_cons hk hq ?_ ?_ (t := m.body.after ++ tail)
  · refine reads_body hb.2 hs.2 hread ?_
    obtain ⟨-, rfl⟩ | ⟨u, rfl, -⟩ := h
    · rintro c ⟨⟩
      exact .inr (.inr (.inl rfl))
    · rintro c ⟨⟩
      exact .inl rfl
  · obtain ⟨hnil, rfl⟩ | ⟨u, rfl, hu⟩ := h
    · exact .inl ⟨hnil, skipBlank_append hb.2.2 (by rintro c ⟨⟩; decide)⟩
    · exact .inr ⟨u, skipBlank_append hb.2.2 (by rintro c ⟨⟩; decide), hu⟩

theorem reads_members (h0 : members ≠ []) (hb : ∀ m ∈ members, m.IsLoose)
    (hs : ∀ m ∈ members, m.IsSpelled limit) (hread : ∀ m ∈ members, IsReadAs limit m.body.text m.value) (rest : Text) :
    Reads (readMembers limit (skipBlank (join [char ','] (members.map Member.whole) ++ char '\x7d' :: rest)))
      (members.map fun m => (m.key, m.value)) rest := by
  induction members with
  | nil => exact absurd rfl h0
  | cons m members ih =>
    obtain ⟨hbm, hb⟩ := List.forall_mem_cons.mp hb
    obtain ⟨hsm, hs⟩ := List.forall_mem_cons.mp hs
    obtain ⟨hmread, hread⟩ := List.forall_mem_cons.mp hread
    cases members with
    | nil =>
      have hjoin : join [char ','] ([m].map Member.whole) = m.whole := List.intercalate_singleton
      rw [hjoin]
      exact reads_member hbm hsm hmread (.inl ⟨rfl, rfl⟩)
    | cons n members =>
      have hjoin : join [char ','] ((m :: n :: members).map Member.whole) ++ char '\x7d' :: rest =
          m.whole ++ char ',' :: (join [char ','] ((n :: members).map Member.whole) ++ char '\x7d' :: rest) := by
        simp [join, List.intercalate_cons_cons]
      rw [hjoin]
      exact reads_member hbm hsm hmread (.inr ⟨_, rfl, ih (List.cons_ne_nil n members) hb hs hread⟩)

theorem isReadAs_of_isValue (h : IsValue limit s v) : IsReadAs limit s v := by
  induction h with
  | word h =>
    exact isReadAs_scalar h.exists_cons (fun rest _ => readScalar_of_isWord h rest) fun n hn =>
      absurd hn (ne_integer_of_isWord h n)
  | number h hn =>
    exact isReadAs_scalar h.exists_start (fun rest hr => readScalar_of_isNumber h hr.stopsNumber) hn
  | string h =>
    intro rest _
    obtain ⟨h⟩ := h
    rw [List.cons_append, List.append_assoc]
    exact readValue_string (reads_readString_iff.mpr (readCharacters_of_spells h rest))
  | emptyArray hb =>
    intro rest _
    rw [List.cons_append, List.append_assoc]
    exact readValue_empty_array (skipBlank_append hb (by rintro c ⟨⟩; decide))
  | array h0 hb h ih =>
    intro rest _
    rw [List.cons_append, List.append_assoc]
    have hitems := reads_items h0 hb h ih
    exact readValue_array (head_of_reads_items (hitems rest)) rfl (hitems rest)
  | emptyObject hb =>
    intro rest _
    rw [List.cons_append, List.append_assoc]
    exact readValue_empty_object (skipBlank_append hb (by rintro c ⟨⟩; decide))
  | object h0 hb hk h ih =>
    intro rest _
    rw [List.cons_append, List.append_assoc]
    have hmembers := reads_members h0 hb (fun m hm => ⟨hk m hm, h m hm⟩) ih
    exact readValue_object (head_of_reads_members (hmembers rest)) rfl (hmembers rest)

theorem exists_blank (s : Text) : ∃ b, s = b ++ skipBlank s ∧ IsBlank b :=
  ⟨s.takeWhile isBlankMark, List.takeWhile_append_dropWhile.symm, fun _ hc => List.mem_takeWhile_imp hc⟩

def IsFaithful (limit : DigitLimit) (s : Text) : Prop :=
  ∀ v rest, Reads (readValue limit s) v rest → ∃ w, s = w ++ rest ∧ IsValue limit w v

theorem exists_items (hs : ∀ t : Text, t.length ≤ s.length → IsFaithful limit t)
    (h : Reads (readItems limit s) vs rest) (hb : IsBlank b) :
    ∃ w, b ++ s = w ++ char ']' :: rest ∧ AreItems limit w vs := by
  induction hlen : s.length using Nat.strongRecOn generalizing s vs b with
  | _ length ih =>
    obtain ⟨v, t, ws, rfl, hv, hmore⟩ := readItems_cases h
    obtain ⟨w, rfl, hw⟩ := hs s le_rfl v t hv
    obtain ⟨a, ha, hblank⟩ := exists_blank t
    rcases hmore with ⟨rfl, ht⟩ | ⟨u, ht, hu⟩
    · rw [ht] at ha
      exact ⟨Padded.whole ⟨b, w, a⟩, by simp [Padded.whole, ha], areItems_singleton ⟨hb, hblank⟩ hw⟩
    · rw [ht] at ha
      obtain ⟨b', hb', hblank'⟩ := exists_blank u
      have hlt : (skipBlank u).length < (w ++ t).length := by
        have hle := skipBlank_length_le u
        simp only [ha, List.length_append, List.length_cons]
        omega
      obtain ⟨x, hx, hitems⟩ := ih _ (hlen ▸ hlt) (fun t ht => hs t (ht.trans hlt.le)) hu hblank' rfl
      rw [← hb'] at hx
      exact ⟨Padded.whole ⟨b, w, a⟩ ++ char ',' :: x, by simp [Padded.whole, ha, hx], hitems.cons ⟨hb, hblank⟩ hw⟩

theorem exists_members (hs : ∀ t : Text, t.length ≤ s.length → IsFaithful limit t)
    (h : Reads (readMembers limit s) fields rest) (hb : IsBlank b) :
    ∃ w, b ++ s = w ++ char '\x7d' :: rest ∧ AreMembers limit w fields := by
  induction hlen : s.length using Nat.strongRecOn generalizing s fields b with
  | _ length ih =>
    obtain ⟨k, s, q, x, v, t, more, rfl, rfl, hk, hq, hv, hmore⟩ := readMembers_cases h
    obtain ⟨k', rfl, hspells⟩ := spells_of_readCharacters (reads_readString_iff.mp hk)
    obtain ⟨after, hafter, hblank⟩ := exists_blank q
    rw [hq] at hafter
    obtain ⟨lead, hlead, hblank'⟩ := exists_blank x
    have hx : (skipBlank x).length ≤ (char '"' :: (k' ++ char '"' :: q)).length := by
      have hle := skipBlank_length_le x
      simp only [hafter, List.length_append, List.length_cons]
      omega
    obtain ⟨w, hw, hvalue⟩ := hs _ hx v t hv
    obtain ⟨trail, ht, hblank''⟩ := exists_blank t
    let m : Member := ⟨⟨b, char '"' :: (k' ++ [char '"']), after⟩, k, ⟨lead, w, trail⟩, v⟩
    have hloose : m.IsLoose := ⟨⟨hb, hblank⟩, hblank', hblank''⟩
    have hspelled : m.IsSpelled limit := ⟨.quoted hspells, hvalue⟩
    have hwhole (u : Text) (ht : t = trail ++ u) : b ++ char '"' :: (k' ++ char '"' :: q) = m.whole ++ u := by
      rw [hafter, hlead, hw, ht]
      simp [m, Member.whole, Padded.whole]
    rcases hmore with ⟨rfl, hclose⟩ | ⟨u, hcomma, hu⟩
    · rw [hclose] at ht
      exact ⟨m.whole, hwhole _ ht, areMembers_singleton hloose hspelled⟩
    · rw [hcomma] at ht
      obtain ⟨b', hb', hmore⟩ := exists_blank u
      have hlt : (skipBlank u).length < (char '"' :: (k' ++ char '"' :: q)).length := by
        have hle := skipBlank_length_le u
        have hlen := congrArg List.length hw
        simp only [ht, List.length_append, List.length_cons] at hlen hx ⊢
        omega
      obtain ⟨y, hy, hmembers⟩ := ih _ (hlen ▸ hlt) (fun t ht => hs t (ht.trans hlt.le)) hu hmore rfl
      rw [← hb'] at hy
      refine ⟨m.whole ++ char ',' :: y, ?_, hmembers.cons hloose hspelled⟩
      rw [hwhole _ ht, hy]
      simp

theorem isFaithful (s : Text) : IsFaithful limit s := by
  induction hlen : s.length using Nat.strongRecOn generalizing s with
  | _ length ih =>
    have hbelow {c : CodePoint} {u : Text} (hs : s = c :: u) (t : Text) (ht : t.length ≤ (skipBlank u).length) :
        IsFaithful limit t := by
      refine ih _ ?_ t rfl
      have hle := skipBlank_length_le u
      rw [← hlen, hs, List.length_cons]
      omega
    intro v rest h
    rcases readValue_cases h with ⟨t, u, rfl, rfl, hu⟩ | ⟨t, rfl, ht, rfl⟩ | ⟨t, vs, rfl, rfl, hvs⟩ |
      ⟨t, rfl, ht, rfl⟩ | ⟨t, fields, rfl, rfl, hfields⟩ | ⟨n, hn, hv, rfl⟩
    · obtain ⟨w, rfl, hw⟩ := spells_of_readCharacters (reads_readString_iff.mp hu)
      exact ⟨char '"' :: (w ++ [char '"']), by simp, .string (.quoted hw)⟩
    · obtain ⟨b, hb, hblank⟩ := exists_blank t
      exact ⟨char '[' :: (b ++ [char ']']), by rw [hb, ht]; simp, .emptyArray hblank⟩
    · obtain ⟨b, hb, hblank⟩ := exists_blank t
      obtain ⟨w, hw, hitems⟩ := exists_items (hbelow rfl) hvs hblank
      exact ⟨char '[' :: (w ++ [char ']']), by rw [hb, hw]; simp, hitems.isValue⟩
    · obtain ⟨b, hb, hblank⟩ := exists_blank t
      exact ⟨char '\x7b' :: (b ++ [char '\x7d']), by rw [hb, ht]; simp, .emptyObject hblank⟩
    · obtain ⟨b, hb, hblank⟩ := exists_blank t
      obtain ⟨w, hw, hmembers⟩ := exists_members (hbelow rfl) hfields hblank
      exact ⟨char '\x7b' :: (w ++ [char '\x7d']), by rw [hb, hw]; simp, hmembers.isValue⟩
    · obtain ⟨w, t, rfl, rfl, hw⟩ := cases_of_readScalar hn
      rw [List.drop_left]
      rcases hw with hw | hw
      · exact ⟨w, rfl, .word hw⟩
      · exact ⟨w, rfl, .number hw hv⟩

theorem isBlank_iff : IsBlank s ↔ skipBlank s = [] := by
  rw [skipBlank, List.dropWhile_eq_nil_iff]
  rfl

theorem parse_eq_ok_iff : parse limit s = .ok v ↔ IsDocument limit s v := by
  constructor
  · intro h
    rw [parse] at h
    split at h
    · cases h
    · split at h
      · cases h
      · next w r hr =>
        split at h
        · next hend =>
          obtain rfl := Except.ok.inj h
          obtain ⟨b, hb, hblank⟩ := exists_blank s
          obtain ⟨x, hx, hvalue⟩ := isFaithful (skipBlank s) w r.text ⟨r, hr, rfl⟩
          exact ⟨⟨b, x, r.text⟩, ⟨hblank, isBlank_iff.mpr hend⟩, hvalue, hb.trans (congrArg (b ++ ·) hx)⟩
        · cases h
  · rintro ⟨⟨before, text, after⟩, ⟨hbefore, hafter⟩, hv, rfl⟩
    have hstart := hv.head after
    have hskip : skipBlank (before ++ (text ++ after)) = text ++ after :=
      skipBlank_append hbefore fun c hc => (hstart c hc).1
    have hend : EndsItem after := fun c hc => .inr (.inr (.inr (hafter c (List.mem_of_mem_head? hc))))
    refine parse_of_reads (head_blank_append hbefore hstart) ?_ (isBlank_iff.mp hafter)
    rw [Padded.whole, hskip]
    exact isReadAs_of_isValue hv after hend

end ColorCensus.Json
