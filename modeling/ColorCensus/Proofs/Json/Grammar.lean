import ColorCensus.Proofs.Json.Reading
import ColorCensus.Proofs.Text.Split
import Mathlib.Algebra.Ring.Int.Defs

namespace ColorCensus.Json

open Text CodePoint

def IsBlank (s : Text) : Prop := ∀ c ∈ s, isBlankMark c = true

def IsDigits (s : Text) : Prop := s ≠ [] ∧ ∀ c ∈ s, c.isDigit = true

inductive IsSign : Text → Bool → Prop where
  | none : IsSign [] false
  | minus : IsSign [char '-'] true

def IsWholePart (s : Text) : Prop := s = [char '0'] ∨ IsDigits s ∧ s.head? ≠ some (char '0')

inductive IsFraction : Text → Text → Prop where
  | none : IsFraction [] []
  | digits {ds : Text} (h : IsDigits ds) : IsFraction (char '.' :: ds) ds

inductive IsExponentSign : Text → Bool → Prop where
  | plus : IsExponentSign [char '+'] false
  | sign {m : Text} {negative : Bool} (h : IsSign m negative) : IsExponentSign m negative

inductive IsExponent : Text → ℤ → Prop where
  | none : IsExponent [] 0
  | digits {e : CodePoint} {m ds : Text} {negative : Bool} (he : e = char 'e' ∨ e = char 'E')
    (hm : IsExponentSign m negative) (h : IsDigits ds) :
    IsExponent (e :: (m ++ ds)) (if negative then -ofDecimal ds else ofDecimal ds)

inductive IsNumber : Text → Value → Prop where
  | whole {m w : Text} {negative : Bool} (hm : IsSign m negative) (hw : IsWholePart w) :
    IsNumber (m ++ w) (.integer (if negative then -ofDecimal w else ofDecimal w))
  | real {m w f ds e : Text} {negative : Bool} {k : ℤ} (hm : IsSign m negative) (hw : IsWholePart w)
    (hf : IsFraction f ds) (he : IsExponent e k) (h : f ≠ [] ∨ e ≠ []) :
    IsNumber (m ++ (w ++ (f ++ e)))
      (.real (Decimal.toBinary64 ⟨negative, ofDecimal (w ++ ds), k - ds.length⟩))

inductive IsWord : Text → Value → Prop where
  | null : IsWord "null" .null
  | true : IsWord "true" (.boolean .true)
  | false : IsWord "false" (.boolean .false)
  | notANumber : IsWord "NaN" (.real .nan)
  | infinity : IsWord "Infinity" (.real (.infinite .false))
  | negativeInfinity : IsWord "-Infinity" (.real (.infinite .true))

def IsCodeUnit (s : Text) : Prop := s.length = 4 ∧ ∀ c ∈ s, isHex c = true

def IsHighHalf (s : Text) : Prop := IsCodeUnit s ∧ 0xD800 ≤ ofHex s ∧ ofHex s < 0xDC00

def IsLowHalf (s : Text) : Prop := IsCodeUnit s ∧ 0xDC00 ≤ ofHex s ∧ ofHex s < 0xE000

def BeginsLow (s : Text) : Prop := ∃ x t, s = char '\\' :: char 'u' :: (x ++ t) ∧ IsLowHalf x

def escapes : List (Char × Char) :=
  [('"', '"'), ('\\', '\\'), ('/', '/'), ('b', '\x08'), ('f', '\x0c'), ('n', '\n'), ('r', '\r'), ('t', '\t')]

inductive Spells : Text → Text → Prop where
  | nil : Spells [] []
  | plain {c : CodePoint} {s u : Text} (hq : c ≠ char '"') (hb : c ≠ char '\\') (hc : 32 ≤ c.toNat)
    (h : Spells s u) : Spells (c :: s) (c :: u)
  | escape {d e : Char} {s u : Text} (he : (d, e) ∈ escapes) (h : Spells s u) :
    Spells (char '\\' :: char d :: s) (char e :: u)
  | pair {w x s u : Text} (hw : IsHighHalf w) (hx : IsLowHalf x) (h : Spells s u) :
    Spells (char '\\' :: char 'u' :: (w ++ char '\\' :: char 'u' :: (x ++ s)))
      (CodePoint.ofNat (0x10000 + (ofHex w - 0xD800) * 1024 + (ofHex x - 0xDC00)) :: u)
  | unit {w s u : Text} (hw : IsCodeUnit w) (hone : IsHighHalf w → ¬ BeginsLow s) (h : Spells s u) :
    Spells (char '\\' :: char 'u' :: (w ++ s)) (CodePoint.ofNat (ofHex w) :: u)

inductive IsString : Text → Text → Prop where
  | quoted {s u : Text} (h : Spells s u) : IsString (char '"' :: (s ++ [char '"'])) u

structure Padded where
  before : Text
  text : Text
  after : Text

def Padded.whole (p : Padded) : Text := p.before ++ (p.text ++ p.after)

def Padded.IsLoose (p : Padded) : Prop := IsBlank p.before ∧ IsBlank p.after

structure Member where
  name : Padded
  key : Text
  body : Padded
  value : Value

def Member.whole (m : Member) : Text := m.name.whole ++ char ':' :: m.body.whole

inductive IsValue (limit : DigitLimit) : Text → Value → Prop where
  | word {s : Text} {v : Value} (h : IsWord s v) : IsValue limit s v
  | number {s : Text} {v : Value} (h : IsNumber s v) (hn : ∀ n, v = .integer n → limit.admits n = true) :
    IsValue limit s v
  | string {s u : Text} (h : IsString s u) : IsValue limit s (.string u)
  | emptyArray {b : Text} (hb : IsBlank b) : IsValue limit (char '[' :: (b ++ [char ']'])) (.array [])
  | array {items : List (Padded × Value)} (h0 : items ≠ []) (hb : ∀ x ∈ items, x.1.IsLoose)
    (h : ∀ x ∈ items, IsValue limit x.1.text x.2) :
    IsValue limit (char '[' :: (join [char ','] (items.map (·.1.whole)) ++ [char ']']))
      (.array (items.map Prod.snd))
  | emptyObject {b : Text} (hb : IsBlank b) : IsValue limit (char '\x7b' :: (b ++ [char '\x7d'])) (.object [])
  | object {members : List Member} (h0 : members ≠ [])
    (hb : ∀ m ∈ members, m.name.IsLoose ∧ m.body.IsLoose) (hk : ∀ m ∈ members, IsString m.name.text m.key)
    (h : ∀ m ∈ members, IsValue limit m.body.text m.value) :
    IsValue limit (char '\x7b' :: (join [char ','] (members.map Member.whole) ++ [char '\x7d']))
      (.object (members.map fun m => (m.key, m.value)))

def IsDocument (limit : DigitLimit) (s : Text) (v : Value) : Prop :=
  ∃ p : Padded, p.IsLoose ∧ IsValue limit p.text v ∧ s = p.whole

variable {s t u w m f e ds rest : Text} {c d : CodePoint} {v : Value} {n : ℕ} {k : ℤ} {negative : Bool}
  {limit : DigitLimit}

def AreItems (limit : DigitLimit) (s : Text) (vs : List Value) : Prop :=
  ∃ items : List (Padded × Value), items ≠ [] ∧ (∀ x ∈ items, x.1.IsLoose) ∧
    (∀ x ∈ items, IsValue limit x.1.text x.2) ∧ items.map Prod.snd = vs ∧
    join [char ','] (items.map (·.1.whole)) = s

theorem areItems_singleton {p : Padded} (hp : p.IsLoose) (hv : IsValue limit p.text v) :
    AreItems limit p.whole [v] :=
  ⟨[(p, v)], List.cons_ne_nil _ _, by simpa using hp, by simpa using hv, rfl, List.intercalate_singleton⟩

theorem AreItems.cons {p : Padded} {vs : List Value} (hp : p.IsLoose) (hv : IsValue limit p.text v)
    (h : AreItems limit s vs) : AreItems limit (p.whole ++ char ',' :: s) (v :: vs) := by
  obtain ⟨items, h0, hloose, hitems, rfl, rfl⟩ := h
  refine ⟨(p, v) :: items, List.cons_ne_nil _ _, List.forall_mem_cons.mpr ⟨hp, hloose⟩,
    List.forall_mem_cons.mpr ⟨hv, hitems⟩, rfl, ?_⟩
  obtain ⟨x, items, rfl⟩ := List.exists_cons_of_ne_nil h0
  simp [join, List.intercalate_cons_cons]

theorem AreItems.isValue {vs : List Value} (h : AreItems limit s vs) :
    IsValue limit (char '[' :: (s ++ [char ']'])) (.array vs) := by
  obtain ⟨items, h0, hloose, hitems, rfl, rfl⟩ := h
  exact .array h0 hloose hitems

def Member.IsLoose (m : Member) : Prop := m.name.IsLoose ∧ m.body.IsLoose

def Member.IsSpelled (limit : DigitLimit) (m : Member) : Prop :=
  IsString m.name.text m.key ∧ IsValue limit m.body.text m.value

def AreMembers (limit : DigitLimit) (s : Text) (fields : List (Text × Value)) : Prop :=
  ∃ members : List Member, members ≠ [] ∧ (∀ m ∈ members, m.IsLoose) ∧ (∀ m ∈ members, m.IsSpelled limit) ∧
    members.map (fun m => (m.key, m.value)) = fields ∧ join [char ','] (members.map Member.whole) = s

theorem areMembers_singleton {m : Member} (hm : m.IsLoose) (h : m.IsSpelled limit) :
    AreMembers limit m.whole [(m.key, m.value)] :=
  ⟨[m], List.cons_ne_nil _ _, by simpa using hm, by simpa using h, rfl, List.intercalate_singleton⟩

theorem AreMembers.cons {m : Member} {fields : List (Text × Value)} (hm : m.IsLoose) (hs : m.IsSpelled limit)
    (h : AreMembers limit s fields) : AreMembers limit (m.whole ++ char ',' :: s) ((m.key, m.value) :: fields) := by
  obtain ⟨members, h0, hloose, hspelled, rfl, rfl⟩ := h
  refine ⟨m :: members, List.cons_ne_nil _ _, List.forall_mem_cons.mpr ⟨hm, hloose⟩,
    List.forall_mem_cons.mpr ⟨hs, hspelled⟩, rfl, ?_⟩
  obtain ⟨n, members, rfl⟩ := List.exists_cons_of_ne_nil h0
  simp [join, List.intercalate_cons_cons]

theorem AreMembers.isValue {fields : List (Text × Value)} (h : AreMembers limit s fields) :
    IsValue limit (char '\x7b' :: (s ++ [char '\x7d'])) (.object fields) := by
  obtain ⟨members, h0, hloose, hspelled, rfl, rfl⟩ := h
  exact .object h0 hloose (fun m hm => (hspelled m hm).1) fun m hm => (hspelled m hm).2

def StopsNumber (rest : Text) : Prop :=
  ∀ c ∈ rest.head?, c.isDigit = false ∧ c ≠ char '.' ∧ c ≠ char 'e' ∧ c ≠ char 'E'

theorem IsWholePart.isDigits (h : IsWholePart w) : IsDigits w := by
  rcases h with rfl | ⟨h, -⟩
  · exact ⟨List.cons_ne_nil _ _, by simp only [List.forall_mem_singleton]; decide⟩
  · exact h

theorem digitsLength_of_forall (hs : ∀ c ∈ s, c.isDigit = true) (hr : ∀ c ∈ rest.head?, c.isDigit = false) :
    Decimal.digitsLength (s ++ rest) = s.length := by
  rw [Decimal.digitsLength, takeWhile_append_of_head? hs hr]

theorem exists_digits (s : Text) : ∃ ds t, s = ds ++ t ∧ (∀ c ∈ ds, c.isDigit = true) ∧
    (∀ c ∈ t.head?, c.isDigit = false) ∧ Decimal.digitsLength s = ds.length := by
  obtain ⟨ds, t, rfl, hds, ht⟩ := exists_run CodePoint.isDigit s
  exact ⟨ds, t, rfl, hds, ht, digitsLength_of_forall hds ht⟩

theorem exists_sign (s : Text) :
    ∃ m t negative, s = m ++ t ∧ IsSign m negative ∧ minusLength s = m.length := by
  unfold minusLength
  split
  · next t => exact ⟨[char '-'], t, true, rfl, .minus, rfl⟩
  · exact ⟨[], s, false, rfl, .none, rfl⟩

theorem wholeLength_of_head (h : s.head? ≠ some (char '0')) : wholeLength s = Decimal.digitsLength s := by
  unfold wholeLength
  split
  · exact absurd rfl h
  · rfl

theorem exists_wholePart (h : wholeLength s ≠ 0) :
    ∃ w t, s = w ++ t ∧ IsWholePart w ∧ wholeLength s = w.length := by
  by_cases hzero : s.head? = some (char '0')
  · obtain ⟨t, rfl⟩ := List.head?_eq_some_iff.mp hzero
    exact ⟨[char '0'], t, rfl, .inl rfl, rfl⟩
  · rw [wholeLength_of_head hzero] at h ⊢
    obtain ⟨w, t, rfl, hw, -, hlen⟩ := exists_digits s
    have h0 : w ≠ [] := by
      rintro rfl
      exact h hlen
    rw [List.head?_append_of_ne_nil _ h0] at hzero
    exact ⟨w, t, rfl, .inr ⟨⟨h0, hw⟩, hzero⟩, hlen⟩

theorem exists_fraction (s : Text) :
    ∃ f ds t, s = f ++ t ∧ IsFraction f ds ∧ fractionLength s = f.length := by
  unfold fractionLength
  split
  · next s =>
    obtain ⟨ds, t, rfl, hds, -, hlen⟩ := exists_digits s
    split
    · exact ⟨[], [], _, rfl, .none, rfl⟩
    · next hlen' =>
      have h0 : ds ≠ [] := by
        rintro rfl
        exact hlen' hlen
      exact ⟨char '.' :: ds, ds, t, rfl, .digits ⟨h0, hds⟩, by rw [hlen]; rfl⟩
  · exact ⟨[], [], s, rfl, .none, rfl⟩

theorem exists_exponentSign (s : Text) :
    ∃ m t negative, s = m ++ t ∧ IsExponentSign m negative ∧ Decimal.signLength s = m.length := by
  cases s with
  | nil => exact ⟨[], [], false, rfl, .sign .none, rfl⟩
  | cons c s =>
    rw [Decimal.signLength]
    split
    · next h =>
      rcases h with rfl | rfl
      · exact ⟨[char '+'], s, false, rfl, .plus, rfl⟩
      · exact ⟨[char '-'], s, true, rfl, .sign .minus, rfl⟩
    · exact ⟨[], c :: s, false, rfl, .sign .none, rfl⟩

theorem exists_exponent (s : Text) :
    ∃ e k t, s = e ++ t ∧ IsExponent e k ∧ Decimal.exponentLength s = e.length := by
  cases s with
  | nil => exact ⟨[], 0, [], rfl, .none, rfl⟩
  | cons c s =>
    rw [Decimal.exponentLength]
    split
    · next h =>
      obtain ⟨hc, hlen'⟩ := h
      obtain ⟨m, s, negative, rfl, hm, hsign⟩ := exists_exponentSign s
      rw [hsign, List.drop_left] at hlen' ⊢
      obtain ⟨ds, t, rfl, hds, -, hlen⟩ := exists_digits s
      have h0 : ds ≠ [] := by
        rintro rfl
        exact hlen' hlen
      refine ⟨c :: (m ++ ds), _, t, by simp, .digits hc hm ⟨h0, hds⟩, ?_⟩
      rw [hlen, List.length_cons, List.length_append]
      omega
    · exact ⟨[], 0, c :: s, rfl, .none, rfl⟩

theorem IsDigits.exists_cons (h : IsDigits ds) : ∃ c s, ds = c :: s ∧ c.isDigit = true := by
  obtain ⟨h0, hds⟩ := h
  obtain ⟨c, s, rfl⟩ := List.exists_cons_of_ne_nil h0
  exact ⟨c, s, rfl, hds c List.mem_cons_self⟩

theorem minusLength_append (hm : IsSign m negative) (hw : IsDigits w) (t : Text) :
    minusLength (m ++ (w ++ t)) = m.length := by
  cases hm with
  | minus => rfl
  | none =>
    obtain ⟨c, w, rfl, hc⟩ := hw.exists_cons
    unfold minusLength
    split
    · next h =>
      obtain ⟨rfl, -⟩ := List.cons.inj h
      exact absurd hc (by decide)
    · rfl

theorem wholeLength_append (hw : IsWholePart w) (ht : ∀ c ∈ t.head?, c.isDigit = false) :
    wholeLength (w ++ t) = w.length := by
  rcases hw with rfl | ⟨⟨h0, hds⟩, hzero⟩
  · rfl
  · rw [wholeLength_of_head (by rwa [List.head?_append_of_ne_nil _ h0]), digitsLength_of_forall hds ht]

theorem fractionLength_append (hf : IsFraction f ds) (ht : ∀ c ∈ t.head?, c.isDigit = false)
    (hdot : f = [] → t.head? ≠ some (char '.')) : fractionLength (f ++ t) = f.length := by
  cases hf with
  | none =>
    unfold fractionLength
    split
    · next h => exact absurd (congrArg List.head? h) (hdot rfl)
    · rfl
  | digits h =>
    have hlen := digitsLength_of_forall h.2 ht
    change (if Decimal.digitsLength (ds ++ t) = 0 then 0 else Decimal.digitsLength (ds ++ t) + 1) = _
    rw [hlen, if_neg (by simpa using h.1)]
    rfl

theorem readSign_append (hm : IsExponentSign m negative) (h : IsDigits ds) (t : Text) :
    Decimal.signLength (m ++ (ds ++ t)) = m.length ∧ Decimal.readSign (m ++ (ds ++ t)) = (negative, ds ++ t) := by
  cases hm with
  | plus => exact ⟨rfl, rfl⟩
  | sign hm =>
    cases hm with
    | minus => exact ⟨rfl, rfl⟩
    | none =>
      obtain ⟨c, ds, rfl, hc⟩ := h.exists_cons
      have hplus : c ≠ char '+' := by
        rintro rfl
        exact absurd hc (by decide)
      have hminus : c ≠ char '-' := by
        rintro rfl
        exact absurd hc (by decide)
      constructor
      · exact if_neg (not_or.mpr ⟨hplus, hminus⟩)
      · unfold Decimal.readSign
        split
        · next h => exact absurd (List.cons.inj h).1 hminus
        · next h => exact absurd (List.cons.inj h).1 hplus
        · rfl

theorem exponentLength_append (he : IsExponent e k) (ht : ∀ c ∈ t.head?, c.isDigit = false)
    (hmark : e = [] → ∀ c ∈ t.head?, c ≠ char 'e' ∧ c ≠ char 'E') :
    Decimal.exponentLength (e ++ t) = e.length := by
  cases he with
  | none =>
    cases t with
    | nil => rfl
    | cons c t =>
      obtain ⟨h1, h2⟩ := hmark rfl c rfl
      rw [List.nil_append, Decimal.exponentLength, if_neg (by simp [h1, h2])]
      rfl
  | digits he hm h =>
    rw [List.cons_append, List.append_assoc, Decimal.exponentLength, (readSign_append hm h t).1, List.drop_left,
      digitsLength_of_forall h.2 ht, if_pos ⟨he, by simpa using h.1⟩, List.length_cons, List.length_append]
    omega

theorem readExponent_append (he : IsExponent e k) : Decimal.readExponent e = k := by
  cases he with
  | none => rfl
  | @digits c m ds negative hc hm h =>
    have hsign := (readSign_append hm h []).2
    rw [List.append_nil] at hsign
    rw [Decimal.readExponent, hsign]

theorem IsExponent.stops (he : IsExponent e k) (ht : ∀ c ∈ t.head?, c.isDigit = false ∧ c ≠ char '.') :
    ∀ c ∈ (e ++ t).head?, c.isDigit = false ∧ c ≠ char '.' := by
  cases he with
  | none => exact ht
  | digits hc =>
    rintro c ⟨⟩
    rcases hc with rfl | rfl
    · decide
    · decide

theorem IsFraction.stops (hf : IsFraction f ds) (ht : ∀ c ∈ t.head?, c.isDigit = false) :
    ∀ c ∈ (f ++ t).head?, c.isDigit = false := by
  cases hf with
  | none => exact ht
  | digits h =>
    rintro c ⟨⟩
    decide

theorem read_append (hm : IsSign m negative) (hw : IsDigits w) (hf : IsFraction f ds) (he : IsExponent e k) :
    Decimal.read (m ++ (w ++ (f ++ e))) = ⟨negative, ofDecimal (w ++ ds), k - ds.length⟩ := by
  have hmark := he.stops (t := []) (by simp)
  rw [List.append_nil] at hmark
  have hstop := hf.stops fun c hc => (hmark c hc).1
  rw [Decimal.read, (readSign_append (.sign hm) hw (f ++ e)).2]
  dsimp only
  rw [takeWhile_append_of_head? hw.2 hstop, dropWhile_append_of_head? hw.2 hstop]
  cases hf with
  | none =>
    rw [List.nil_append]
    split
    · exact absurd rfl (hmark _ rfl).2
    · rw [readExponent_append he, List.append_nil, List.length_nil, Nat.cast_zero, sub_zero]
  | digits h =>
    have hde : ∀ c ∈ e.head?, c.isDigit = false := fun c hc => (hmark c hc).1
    change Decimal.mk negative (ofDecimal (w ++ (ds ++ e).takeWhile CodePoint.isDigit))
      (Decimal.readExponent ((ds ++ e).dropWhile CodePoint.isDigit) -
        ((ds ++ e).takeWhile CodePoint.isDigit).length) = _
    rw [takeWhile_append_of_head? h.2 hde, dropWhile_append_of_head? h.2 hde, readExponent_append he]

theorem readNumber_whole (hm : IsSign m negative) (hw : IsWholePart w)
    (hwhole : wholeLength (w ++ t) = w.length) (hfraction : fractionLength t = 0)
    (hexponent : Decimal.exponentLength t = 0) : readNumber (m ++ (w ++ t)) =
      some (.integer (if negative then -ofDecimal w else ofDecimal w), (m ++ w).length) := by
  have hminus := minusLength_append hm hw.isDigits t
  have hdrop : (m ++ (w ++ t)).drop (m.length + w.length) = t := by
    rw [← List.append_assoc, ← List.length_append, List.drop_left]
  have h0 : w.length ≠ 0 := by simpa using hw.isDigits.1
  rw [readNumber]
  simp only [hminus, List.drop_left, hwhole, hdrop, hfraction, Nat.add_zero, hexponent, if_neg h0, if_true,
    List.take_left, List.length_append]
  cases hm <;> rfl

theorem readNumber_real (hm : IsSign m negative) (hw : IsWholePart w) (hf : IsFraction f ds)
    (he : IsExponent e k) (h : f ≠ [] ∨ e ≠ []) (hwhole : wholeLength (w ++ (f ++ (e ++ t))) = w.length)
    (hfraction : fractionLength (f ++ (e ++ t)) = f.length)
    (hexponent : Decimal.exponentLength (e ++ t) = e.length) : readNumber (m ++ (w ++ (f ++ (e ++ t)))) =
      some (.real (Decimal.toBinary64 ⟨negative, ofDecimal (w ++ ds), k - ds.length⟩),
        (m ++ (w ++ (f ++ e))).length) := by
  have hminus := minusLength_append hm hw.isDigits (f ++ (e ++ t))
  have hdrop : (m ++ (w ++ (f ++ (e ++ t)))).drop (m.length + w.length) = f ++ (e ++ t) := by
    rw [← List.append_assoc, ← List.length_append, List.drop_left]
  have hdrop' : (m ++ (w ++ (f ++ (e ++ t)))).drop (m.length + w.length + f.length) = e ++ t := by
    rw [← List.drop_drop, hdrop, List.drop_left]
  have h0 : w.length ≠ 0 := by simpa using hw.isDigits.1
  have h1 : f.length + e.length ≠ 0 := by
    rcases h with h | h
    · have := List.length_pos_of_ne_nil h
      omega
    · have := List.length_pos_of_ne_nil h
      omega
  have htake : (m ++ (w ++ (f ++ (e ++ t)))).take (m.length + w.length + f.length + e.length) =
      m ++ (w ++ (f ++ e)) := by
    have hassoc : m ++ (w ++ (f ++ (e ++ t))) = (m ++ (w ++ (f ++ e))) ++ t := by simp
    rw [hassoc]
    exact List.take_left' (by simp [Nat.add_assoc])
  rw [readNumber]
  simp only [hminus, List.drop_left, hwhole, hdrop, hfraction, hdrop', hexponent, if_neg h0, if_neg h1, htake,
    read_append hm hw.isDigits hf he]
  simp [Nat.add_assoc]

theorem readNumber_of_isNumber (h : IsNumber s v) (hr : StopsNumber rest) :
    readNumber (s ++ rest) = some (v, s.length) := by
  have hdigit : ∀ c ∈ rest.head?, c.isDigit = false := fun c hc => (hr c hc).1
  have hdot : rest.head? ≠ some (char '.') := fun h => (hr _ h).2.1 rfl
  have hmark : ∀ c ∈ rest.head?, c ≠ char 'e' ∧ c ≠ char 'E' := fun c hc => (hr c hc).2.2
  cases h with
  | whole hm hw =>
    rw [List.append_assoc]
    exact readNumber_whole hm hw (wholeLength_append hw hdigit)
      (fractionLength_append .none hdigit fun _ => hdot) (exponentLength_append .none hdigit fun _ => hmark)
  | @real m w f ds e negative k hm hw hf he h =>
    have hexponent := he.stops fun c hc => ⟨(hr c hc).1, (hr c hc).2.1⟩
    have hdigit' : ∀ c ∈ (e ++ rest).head?, c.isDigit = false := fun c hc => (hexponent c hc).1
    simp only [List.append_assoc]
    exact readNumber_real hm hw hf he h (wholeLength_append hw (hf.stops hdigit'))
      (fractionLength_append hf hdigit' fun _ hc => (hexponent _ hc).2 rfl)
      (exponentLength_append he hdigit fun _ => hmark)

theorem exists_parts (h : readNumber s = some (v, n)) : ∃ m w f ds e k negative t,
    s = m ++ (w ++ (f ++ (e ++ t))) ∧ IsSign m negative ∧ IsWholePart w ∧ IsFraction f ds ∧ IsExponent e k ∧
    wholeLength (w ++ (f ++ (e ++ t))) = w.length ∧ fractionLength (f ++ (e ++ t)) = f.length ∧
    Decimal.exponentLength (e ++ t) = e.length := by
  obtain ⟨m, s, negative, rfl, hm, hminus⟩ := exists_sign s
  have hwhole : wholeLength s ≠ 0 := by
    intro h0
    rw [readNumber] at h
    simp only [hminus, List.drop_left, h0, if_true] at h
    cases h
  obtain ⟨w, s, rfl, hw, hwlen⟩ := exists_wholePart hwhole
  obtain ⟨f, ds, s, rfl, hf, hflen⟩ := exists_fraction s
  obtain ⟨e, k, s, rfl, he, helen⟩ := exists_exponent s
  exact ⟨m, w, f, ds, e, k, negative, s, rfl, hm, hw, hf, he, hwlen, hflen, helen⟩

theorem isNumber_of_readNumber (h : readNumber s = some (v, n)) :
    ∃ w t, s = w ++ t ∧ w.length = n ∧ IsNumber w v := by
  obtain ⟨m, w, f, ds, e, k, negative, s, rfl, hm, hw, hf, he, hwlen, hflen, helen⟩ := exists_parts h
  by_cases hnone : f = [] ∧ e = []
  · obtain ⟨rfl, rfl⟩ := hnone
    simp only [List.nil_append] at *
    rw [readNumber_whole hm hw hwlen hflen helen] at h
    cases h
    exact ⟨m ++ w, s, (List.append_assoc ..).symm, rfl, .whole hm hw⟩
  · rw [readNumber_real hm hw hf he (not_and_or.mp hnone) hwlen hflen helen] at h
    cases h
    exact ⟨m ++ (w ++ (f ++ e)), s, by simp, rfl, .real hm hw hf he (not_and_or.mp hnone)⟩

theorem simpleEscape_eq_some_iff {d e : CodePoint} : simpleEscape d = some e ↔
    ∃ x ∈ escapes, d = char x.1 ∧ e = char x.2 := by
  constructor
  · intro h
    unfold simpleEscape at h
    split at h <;> first
      | exact ⟨(_, _), by decide, rfl, (Option.some.inj h).symm⟩
      | cases h
  · have h : ∀ x ∈ escapes, simpleEscape (char x.1) = some (char x.2) := by decide
    rintro ⟨x, hx, rfl, rfl⟩
    exact h x hx

theorem codeUnit_append (hw : IsCodeUnit w) (ht : t ≠ []) : codeUnit (w ++ t) = some (ofHex w) := by
  have htake : (w ++ t).take 4 = w := List.take_left' hw.1
  have hdrop : (w ++ t).drop 4 = t := List.drop_left' hw.1
  rw [codeUnit, htake, hdrop, if_pos ⟨List.all_eq_true.mpr hw.2, ht⟩]

theorem exists_of_codeUnit (h : codeUnit s = some n) : ∃ w t, s = w ++ t ∧ t ≠ [] ∧ IsCodeUnit w ∧ n = ofHex w := by
  rw [codeUnit] at h
  split at h
  · next hs =>
    obtain ⟨hhex, ht⟩ := hs
    refine ⟨s.take 4, s.drop 4, (List.take_append_drop 4 s).symm, ht, ⟨?_, List.all_eq_true.mp hhex⟩,
      (Option.some.inj h).symm⟩
    rw [List.length_take]
    have := List.length_pos_of_ne_nil ht
    rw [List.length_drop] at this
    omega
  · cases h

theorem lowSurrogate_append {x : Text} (hx : IsLowHalf x) (ht : t ≠ []) :
    lowSurrogate (char '\\' :: char 'u' :: (x ++ t)) = some (ofHex x) := by
  have hlow : isLowSurrogate (ofHex x) = true := decide_eq_true hx.2
  change (codeUnit (x ++ t)).filter isLowSurrogate = _
  rw [codeUnit_append hx.1 ht, Option.filter_some, if_pos hlow]

theorem exists_of_lowSurrogate (h : lowSurrogate s = some n) : ∃ x t, s = char '\\' :: char 'u' :: (x ++ t) ∧
    t ≠ [] ∧ IsLowHalf x ∧ n = ofHex x := by
  unfold lowSurrogate at h
  split at h
  · next t =>
    obtain ⟨hunit, hlow⟩ := Option.filter_eq_some_iff.mp h
    obtain ⟨x, t, rfl, ht, hx, rfl⟩ := exists_of_codeUnit hunit
    exact ⟨x, t, rfl, ht, ⟨hx, of_decide_eq_true hlow⟩, rfl⟩
  · cases h

theorem unitChar_of_high (hw : IsHighHalf w) (h : lowSurrogate s = some n) : unitChar (ofHex w) s =
    (CodePoint.ofNat (0x10000 + (ofHex w - 0xD800) * 1024 + (n - 0xDC00)), 6) := by
  have hhigh : isHighSurrogate (ofHex w) = true := decide_eq_true hw.2
  rw [unitChar, if_pos hhigh, h]

theorem unitChar_of_single (hw : IsCodeUnit w) (h : IsHighHalf w → lowSurrogate s = none) :
    unitChar (ofHex w) s = (CodePoint.ofNat (ofHex w), 0) := by
  rw [unitChar]
  split
  · next hhigh => rw [h ⟨hw, of_decide_eq_true hhigh⟩]
  · rfl

theorem beginsLow_of_lowSurrogate (h : lowSurrogate (s ++ char '"' :: rest) = some n) : BeginsLow s := by
  obtain ⟨x, t, ht, -, hx, -⟩ := exists_of_lowSurrogate h
  have hquote : char '"' ∉ char '\\' :: char 'u' :: x := by
    intro hm
    rcases List.mem_cons.mp hm with hm | hm
    · cases hm
    · rcases List.mem_cons.mp hm with hm | hm
      · cases hm
      · exact absurd (hx.1.2 _ hm) (by decide)
  have hsplit : s ++ char '"' :: rest = (char '\\' :: char 'u' :: x) ++ t := by simpa using ht
  rcases List.append_eq_append_iff.mp hsplit with ⟨a, ha, hquoted⟩ | ⟨a, rfl, -⟩
  · cases a with
    | nil => exact ⟨x, [], by simpa using ha.symm, hx⟩
    | cons c a =>
      obtain ⟨rfl, -⟩ := List.cons.inj hquoted
      exact absurd (ha ▸ List.mem_append_right s List.mem_cons_self) hquote
  · exact ⟨x, a, by simp, hx⟩

theorem readCharacters_of_spells (h : Spells s u) (rest : Text) :
    Reads (readCharacters (s ++ char '"' :: rest)) u rest := by
  have h0 (t : Text) : t ++ char '"' :: rest ≠ [] := List.append_ne_nil_of_right_ne_nil _ (List.cons_ne_nil _ _)
  induction h with
  | nil => exact readCharacters_quote rest
  | plain hq hb hc _ ih => exact readCharacters_plain hq hb hc ih
  | @escape d e s u he _ ih =>
    have hd : ∀ x ∈ escapes, char x.1 ≠ char 'u' := by decide
    exact readCharacters_escape (hd _ he) (simpleEscape_eq_some_iff.mpr ⟨_, he, rfl, rfl⟩) ih
  | @pair w x s u hw hx _ ih =>
    have hlow := lowSurrogate_append hx (h0 s)
    rw [List.cons_append, List.cons_append, List.append_assoc, List.cons_append, List.cons_append,
      List.append_assoc]
    refine readCharacters_unit (k := 6) (codeUnit_append hw.1 (List.cons_ne_nil _ _)) ?_ ?_
    · rw [List.drop_left' hw.1.1]
      exact unitChar_of_high hw hlow
    · rw [List.drop_left' hw.1.1]
      have hdrop : (char '\\' :: char 'u' :: (x ++ (s ++ char '"' :: rest))).drop 6 = s ++ char '"' :: rest :=
        List.drop_left' hx.1.1
      rw [hdrop]
      exact ih
  | @unit w s u hw hone _ ih =>
    rw [List.cons_append, List.cons_append, List.append_assoc]
    refine readCharacters_unit (k := 0) (codeUnit_append hw (h0 s)) ?_ ?_
    · rw [List.drop_left' hw.1]
      refine unitChar_of_single hw fun hhigh => ?_
      exact Option.eq_none_iff_forall_ne_some.mpr fun n hn => hone hhigh (beginsLow_of_lowSurrogate hn)
    · rw [List.drop_left' hw.1]
      exact ih

theorem unitChar_cases (hw : IsCodeUnit w) (s : Text) :
    (∃ n, IsHighHalf w ∧ lowSurrogate s = some n ∧ unitChar (ofHex w) s =
      (CodePoint.ofNat (0x10000 + (ofHex w - 0xD800) * 1024 + (n - 0xDC00)), 6)) ∨
    ((IsHighHalf w → lowSurrogate s = none) ∧ unitChar (ofHex w) s = (CodePoint.ofNat (ofHex w), 0)) := by
  cases hs : lowSurrogate s with
  | none => exact .inr ⟨fun _ => rfl, unitChar_of_single hw fun _ => hs⟩
  | some n =>
    by_cases hhigh : IsHighHalf w
    · exact .inl ⟨n, hhigh, rfl, unitChar_of_high hhigh hs⟩
    · exact .inr ⟨fun h => absurd h hhigh, unitChar_of_single hw fun h => absurd h hhigh⟩

theorem spells_of_readCharacters (h : Reads (readCharacters s) u rest) :
    ∃ w, s = w ++ char '"' :: rest ∧ Spells w u := by
  induction hlen : s.length using Nat.strongRecOn generalizing s u with
  | _ length ih =>
    rcases readCharacters_cases h with ⟨rfl, rfl⟩ | ⟨c, t, v, rfl, hq, hb, hc, rfl, hv⟩ |
      ⟨d, e, t, v, rfl, he, rfl, hv⟩ | ⟨n, t, v, rfl, hn, rfl, hv⟩
    · exact ⟨[], rfl, .nil⟩
    · obtain ⟨w, rfl, hw⟩ := ih _ (by simp [← hlen]) hv rfl
      exact ⟨c :: w, rfl, .plain hq hb hc hw⟩
    · obtain ⟨w, rfl, hw⟩ := ih _ (by simp only [← hlen, List.length_cons]; omega) hv rfl
      obtain ⟨x, hx, rfl, rfl⟩ := simpleEscape_eq_some_iff.mp he
      exact ⟨char '\\' :: char x.1 :: w, rfl, .escape hx hw⟩
    · obtain ⟨w, t, rfl, ht, hw, rfl⟩ := exists_of_codeUnit hn
      rw [List.drop_left' hw.1] at hv ⊢
      rcases unitChar_cases hw t with ⟨n, hhigh, hlow, hchar⟩ | ⟨hsingle, hchar⟩
      · obtain ⟨x, t, rfl, -, hx, rfl⟩ := exists_of_lowSurrogate hlow
        rw [hchar] at hv ⊢
        have hdrop : (char '\\' :: char 'u' :: (x ++ t)).drop 6 = t := List.drop_left' hx.1.1
        rw [hdrop] at hv
        obtain ⟨y, rfl, hy⟩ := ih _ (by simp only [← hlen, List.length_cons, List.length_append]; omega) hv rfl
        dsimp only
        exact ⟨char '\\' :: char 'u' :: (w ++ char '\\' :: char 'u' :: (x ++ y)),
          by simp only [List.cons_append, List.append_assoc], .pair hhigh hx hy⟩
      · rw [hchar, List.drop_zero] at hv
        rw [hchar]
        obtain ⟨y, rfl, hy⟩ := ih _ (by simp only [← hlen, List.length_cons, List.length_append]; omega) hv rfl
        refine ⟨char '\\' :: char 'u' :: (w ++ y), by simp, .unit hw (fun hhigh hbegins => ?_) hy⟩
        obtain ⟨x, z, rfl, hx⟩ := hbegins
        have hlow := lowSurrogate_append hx (t := z ++ char '"' :: rest)
          (List.append_ne_nil_of_right_ne_nil _ (List.cons_ne_nil _ _))
        rw [← List.append_assoc] at hlow
        exact absurd (hlow.symm.trans (hsingle hhigh)) (by simp)

theorem mem_words_iff {w : Text × Value} : w ∈ words ↔ IsWord w.1 w.2 := by
  obtain ⟨s, v⟩ := w
  constructor
  · simp only [words, List.mem_cons, Prod.mk.injEq, List.not_mem_nil, or_false]
    rintro (⟨rfl, rfl⟩ | ⟨rfl, rfl⟩ | ⟨rfl, rfl⟩ | ⟨rfl, rfl⟩ | ⟨rfl, rfl⟩ | ⟨rfl, rfl⟩)
    · exact .null
    · exact .true
    · exact .false
    · exact .notANumber
    · exact .infinity
    · exact .negativeInfinity
  · intro h
    cases h with
    | null => exact .head _
    | true => exact .tail _ (.head _)
    | false => exact .tail _ (.tail _ (.head _))
    | notANumber => exact .tail _ (.tail _ (.tail _ (.head _)))
    | infinity => exact .tail _ (.tail _ (.tail _ (.tail _ (.head _))))
    | negativeInfinity => exact .tail _ (.tail _ (.tail _ (.tail _ (.tail _ (.head _)))))

theorem exists_of_mem_words : ∀ w ∈ words, ∃ d e u, w.1 = d :: e :: u ∧ d.isDigit = false ∧
    e.isDigit = false := by
  simp only [words, List.forall_mem_cons]
  exact ⟨⟨_, _, _, rfl, rfl, rfl⟩, ⟨_, _, _, rfl, rfl, rfl⟩, ⟨_, _, _, rfl, rfl, rfl⟩,
    ⟨_, _, _, rfl, rfl, rfl⟩, ⟨_, _, _, rfl, rfl, rfl⟩, ⟨_, _, _, rfl, rfl, rfl⟩, by simp⟩

theorem readScalar_of_isWord (h : IsWord s v) (rest : Text) : readScalar (s ++ rest) = some (v, s.length) := by
  cases h <;> rfl

theorem IsNumber.exists_cons (h : IsNumber s v) :
    ∃ c t, c.isDigit = true ∧ (s = c :: t ∨ s = char '-' :: c :: t) := by
  have hparts {m w : Text} {negative : Bool} (t : Text) (hm : IsSign m negative) (hw : IsWholePart w) :
      ∃ c u, c.isDigit = true ∧ (m ++ (w ++ t) = c :: u ∨ m ++ (w ++ t) = char '-' :: c :: u) := by
    obtain ⟨c, u, rfl, hc⟩ := hw.isDigits.exists_cons
    cases hm with
    | none => exact ⟨c, u ++ t, hc, .inl rfl⟩
    | minus => exact ⟨c, u ++ t, hc, .inr rfl⟩
  cases h with
  | whole hm hw => simpa using hparts [] hm hw
  | real hm hw => exact hparts _ hm hw

theorem readScalar_eq_readNumber (h : IsNumber s v) (rest : Text) :
    readScalar (s ++ rest) = readNumber (s ++ rest) := by
  -- the words are looked for first, and one of them begins with a minus sign
  have hwords : words.find? (fun w => startsWith w.1 (s ++ rest)) = none := by
    rw [List.find?_eq_none]
    intro w hw hs
    obtain ⟨d, e, u, hword, hd, he⟩ := exists_of_mem_words w hw
    rw [hword] at hs
    obtain ⟨more, hmore⟩ := startsWith_iff.mp hs
    obtain ⟨c, t, hc, rfl | rfl⟩ := h.exists_cons
    · obtain ⟨rfl, -⟩ := List.cons.inj hmore
      exact Bool.noConfusion (hc.symm.trans hd)
    · obtain ⟨-, htail⟩ := List.cons.inj hmore
      obtain ⟨rfl, -⟩ := List.cons.inj htail
      exact Bool.noConfusion (hc.symm.trans he)
  rw [readScalar, hwords]

theorem readScalar_of_isNumber (h : IsNumber s v) (hr : StopsNumber rest) :
    readScalar (s ++ rest) = some (v, s.length) := by
  rw [readScalar_eq_readNumber h]
  exact readNumber_of_isNumber h hr

theorem cases_of_readScalar (h : readScalar s = some (v, n)) :
    ∃ w t, s = w ++ t ∧ w.length = n ∧ (IsWord w v ∨ IsNumber w v) := by
  rw [readScalar] at h
  split at h
  · next w hw =>
    have hstarts : startsWith w.1 s = true := List.find?_some (p := fun w : Text × Value => startsWith w.1 s) hw
    obtain ⟨t, rfl⟩ := startsWith_iff.mp hstarts
    cases h
    exact ⟨w.1, t, rfl, rfl, .inl (mem_words_iff.mp (List.mem_of_find?_eq_some hw))⟩
  · obtain ⟨w, t, rfl, hlen, hnum⟩ := isNumber_of_readNumber h
    exact ⟨w, t, rfl, hlen, .inr hnum⟩

end ColorCensus.Json
