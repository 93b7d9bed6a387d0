import ColorCensus.Proofs.Outcome
import ColorCensus.Proofs.Text.Case
import ColorCensus.Text.Utf8

namespace ColorCensus.Text.Utf8

variable {bytes form rest : List UInt8} {a b : UInt8} {offset n : ℕ} {q : Sequence} {s t : Text} {c : Char}

theorem opened_two (h : 0xC2 ≤ a.toNat) (h' : a.toNat ≤ 0xDF) :
    Sequence.opened offset a = some ⟨a.toNat - 0xC0, 1, 0x80, 0xBF, a, offset⟩ :=
  if_pos ⟨h, h'⟩

theorem opened_three (h : 0xE0 ≤ a.toNat) (h' : a.toNat ≤ 0xEF) :
    Sequence.opened offset a = some ⟨a.toNat - 0xE0, 2, if a.toNat = 0xE0 then 0xA0 else 0x80,
      if a.toNat = 0xED then 0x9F else 0xBF, a, offset⟩ := by
  unfold Sequence.opened
  dsimp only
  rw [if_neg (by omega)]
  split
  · next he => simp [he]
  · split
    · next he => simp [he]
    · rw [if_pos (by omega)]

theorem opened_four (h : 0xF0 ≤ a.toNat) (h' : a.toNat ≤ 0xF4) :
    Sequence.opened offset a = some ⟨a.toNat - 0xF0, 3, if a.toNat = 0xF0 then 0x90 else 0x80,
      if a.toNat = 0xF4 then 0x8F else 0xBF, a, offset⟩ := by
  unfold Sequence.opened
  dsimp only
  rw [if_neg (by omega), if_neg (by omega), if_neg (by omega), if_neg (by omega)]
  split
  · next he => simp [he]
  · split
    · next he => simp [he]
    · rw [if_pos (by omega)]

theorem opened_cases (h : Sequence.opened offset a = some q) :
    (0xC2 ≤ a.toNat ∧ a.toNat ≤ 0xDF) ∨ (0xE0 ≤ a.toNat ∧ a.toNat ≤ 0xEF) ∨
      (0xF0 ≤ a.toNat ∧ a.toNat ≤ 0xF4) := by
  by_contra hno
  unfold Sequence.opened at h
  dsimp only at h
  rw [if_neg (by omega), if_neg (by omega), if_neg (by omega), if_neg (by omega), if_neg (by omega),
    if_neg (by omega), if_neg (by omega)] at h
  cases h

theorem decodeFrom_ascii (h : a.toNat < 0x80) : decodeFrom offset none (a :: rest) =
    (decodeFrom (offset + 1) none rest).map (CodePoint.ofNat a.toNat :: ·) := by
  rw [decodeFrom, if_pos h]

theorem decodeFrom_lead (h : Sequence.opened offset a = some q) :
    decodeFrom offset none (a :: rest) = decodeFrom (offset + 1) (some q) rest := by
  have ha : ¬ a.toNat < 0x80 := by
    have hcases := opened_cases h
    omega
  rw [decodeFrom, if_neg ha, h]

theorem decodeFrom_more (h : q.low ≤ b.toNat ∧ b.toNat ≤ q.high) (hm : 1 < q.missing) :
    decodeFrom offset (some q) (b :: rest) = decodeFrom (offset + 1) (some (q.extend b)) rest := by
  have ha : q.accepts b = true := decide_eq_true h
  rw [decodeFrom, if_pos ha, if_neg (by omega)]

theorem decodeFrom_last (h : q.low ≤ b.toNat ∧ b.toNat ≤ q.high) (hm : q.missing ≤ 1) :
    decodeFrom offset (some q) (b :: rest) =
      (decodeFrom (offset + 1) none rest).map (CodePoint.ofNat (q.extend b).value :: ·) := by
  have ha : q.accepts b = true := decide_eq_true h
  rw [decodeFrom, if_pos ha, if_pos hm]

theorem exists_of_decodeFrom_open (h : decodeFrom offset (some q) bytes = .ok s) :
    ∃ b rest, bytes = b :: rest ∧ q.low ≤ b.toNat ∧ b.toNat ≤ q.high ∧
      (1 < q.missing → decodeFrom (offset + 1) (some (q.extend b)) rest = .ok s) := by
  cases bytes with
  | nil => cases h
  | cons b rest =>
    rw [decodeFrom] at h
    split at h
    · next ha =>
      obtain ⟨hlow, hhigh⟩ := of_decide_eq_true ha
      refine ⟨b, rest, rfl, hlow, hhigh, fun hm => ?_⟩
      rwa [if_neg (by omega)] at h
    · cases h

def IsTail (b : UInt8) : Prop := 0x80 ≤ b.toNat ∧ b.toNat ≤ 0xBF

inductive IsForm : List UInt8 → ℕ → Prop where
  | one {a : UInt8} (ha : a.toNat < 0x80) : IsForm [a] a.toNat
  | two {a b : UInt8} (ha : 0xC2 ≤ a.toNat ∧ a.toNat ≤ 0xDF) (hb : IsTail b) :
    IsForm [a, b] ((a.toNat - 0xC0) * 64 + (b.toNat - 0x80))
  | three {a b c : UInt8} (ha : 0xE0 ≤ a.toNat ∧ a.toNat ≤ 0xEF) (hb : IsTail b) (hc : IsTail c)
    (hlow : a.toNat = 0xE0 → 0xA0 ≤ b.toNat) (hhigh : a.toNat = 0xED → b.toNat ≤ 0x9F) :
    IsForm [a, b, c] (((a.toNat - 0xE0) * 64 + (b.toNat - 0x80)) * 64 + (c.toNat - 0x80))
  | four {a b c d : UInt8} (ha : 0xF0 ≤ a.toNat ∧ a.toNat ≤ 0xF4) (hb : IsTail b) (hc : IsTail c)
    (hd : IsTail d) (hlow : a.toNat = 0xF0 → 0x90 ≤ b.toNat) (hhigh : a.toNat = 0xF4 → b.toNat ≤ 0x8F) :
    IsForm [a, b, c, d]
      ((((a.toNat - 0xF0) * 64 + (b.toNat - 0x80)) * 64 + (c.toNat - 0x80)) * 64 + (d.toNat - 0x80))

theorem IsForm.isValidChar (h : IsForm form n) : n.isValidChar := by
  cases h <;> simp only [Nat.isValidChar, IsTail] at * <;> omega

theorem toNat_byte (h : n < 256) : (UInt8.ofNat n).toNat = n := by
  rw [UInt8.toNat_ofNat', Nat.mod_eq_of_lt h]

theorem byte_eq_iff : UInt8.ofNat n = a ↔ n % 256 = a.toNat := by
  rw [← UInt8.toNat_inj, UInt8.toNat_ofNat']

theorem IsForm.encodeChar (h : IsForm form n) : String.utf8EncodeChar (Char.ofNat n) = form := by
  have hn : (Char.ofNat n).val.toNat = n := by
    rw [Char.ofNat, dif_pos h.isValidChar]
    rfl
  unfold String.utf8EncodeChar
  simp only [hn]
  cases h with
  | one ha =>
    rw [if_pos (by omega)]
    simp only [List.cons.injEq, byte_eq_iff, and_true]
    omega
  | two ha hb =>
    unfold IsTail at hb
    rw [if_neg (by omega), if_pos (by omega)]
    simp only [List.cons.injEq, byte_eq_iff, and_true]
    omega
  | three ha hb hc hlow hhigh =>
    unfold IsTail at hb hc
    rw [if_neg (by omega), if_neg (by omega), if_pos (by omega)]
    simp only [List.cons.injEq, byte_eq_iff, and_true]
    omega
  | four ha hb hc hd hlow hhigh =>
    unfold IsTail at hb hc hd
    rw [if_neg (by omega), if_neg (by omega), if_neg (by omega)]
    simp only [List.cons.injEq, byte_eq_iff, and_true]
    omega

theorem isForm_encodeChar (c : Char) : IsForm (String.utf8EncodeChar c) c.val.toNat := by
  have hvalid : c.val.toNat < 0xD800 ∨ 0xDFFF < c.val.toNat ∧ c.val.toNat < 0x110000 := c.valid
  unfold String.utf8EncodeChar
  generalize c.val.toNat = v at hvalid
  dsimp only
  split_ifs with h1 h2 h3
  · have hform := IsForm.one (a := UInt8.ofNat v) (by rw [toNat_byte] <;> omega)
    rwa [toNat_byte (by omega)] at hform
  · have hform := IsForm.two (a := UInt8.ofNat (v / 64 % 32 + 192)) (b := UInt8.ofNat (v % 64 + 128))
      (by rw [toNat_byte] <;> omega) (by rw [IsTail, toNat_byte] <;> omega)
    rw [toNat_byte (by omega), toNat_byte (by omega)] at hform
    have hv : (v / 64 % 32 + 192 - 0xC0) * 64 + (v % 64 + 128 - 0x80) = v := by omega
    rwa [hv] at hform
  · have hform := IsForm.three (a := UInt8.ofNat (v / 4096 % 16 + 224))
      (b := UInt8.ofNat (v / 64 % 64 + 128)) (c := UInt8.ofNat (v % 64 + 128))
      (by rw [toNat_byte] <;> omega) (by rw [IsTail, toNat_byte] <;> omega)
      (by rw [IsTail, toNat_byte] <;> omega) (by rw [toNat_byte, toNat_byte] <;> omega)
      (by rw [toNat_byte, toNat_byte] <;> omega)
    rw [toNat_byte (by omega), toNat_byte (by omega), toNat_byte (by omega)] at hform
    have hv : ((v / 4096 % 16 + 224 - 0xE0) * 64 + (v / 64 % 64 + 128 - 0x80)) * 64 +
        (v % 64 + 128 - 0x80) = v := by omega
    rwa [hv] at hform
  · have hform := IsForm.four (a := UInt8.ofNat (v / 262144 % 8 + 240))
      (b := UInt8.ofNat (v / 4096 % 64 + 128)) (c := UInt8.ofNat (v / 64 % 64 + 128))
      (d := UInt8.ofNat (v % 64 + 128)) (by rw [toNat_byte] <;> omega) (by rw [IsTail, toNat_byte] <;> omega)
      (by rw [IsTail, toNat_byte] <;> omega) (by rw [IsTail, toNat_byte] <;> omega)
      (by rw [toNat_byte, toNat_byte] <;> omega) (by rw [toNat_byte, toNat_byte] <;> omega)
    rw [toNat_byte (by omega), toNat_byte (by omega), toNat_byte (by omega), toNat_byte (by omega)] at hform
    have hv : (((v / 262144 % 8 + 240 - 0xF0) * 64 + (v / 4096 % 64 + 128 - 0x80)) * 64 +
        (v / 64 % 64 + 128 - 0x80)) * 64 + (v % 64 + 128 - 0x80) = v := by omega
    rwa [hv] at hform

theorem IsForm.ofNat_eq (h : IsForm form n) : CodePoint.ofNat n = .char (Char.ofNat n) := by
  have hv : n < 0xD800 ∨ 0xDFFF < n ∧ n < 0x110000 := h.isValidChar
  rw [CodePoint.ofNat, dif_neg (by omega), if_pos (by omega)]

theorem IsForm.length_pos (h : IsForm form n) : 0 < form.length := by
  cases h <;> exact Nat.succ_pos _

theorem decodeFrom_of_isForm (h : IsForm form n) (offset : ℕ) (rest : List UInt8) :
    decodeFrom offset none (form ++ rest) =
      (decodeFrom (offset + form.length) none rest).map (CodePoint.ofNat n :: ·) := by
  cases h with
  | one ha => exact decodeFrom_ascii ha
  | two ha hb => exact (decodeFrom_lead (opened_two ha.1 ha.2)).trans (decodeFrom_last hb (Nat.le_refl 1))
  | three ha hb hc hlow hhigh =>
    refine (decodeFrom_lead (opened_three ha.1 ha.2)).trans ?_
    refine (decodeFrom_more ?_ (Nat.lt_succ_self 1)).trans (decodeFrom_last hc (Nat.le_refl 1))
    unfold IsTail at hb
    dsimp only
    split_ifs <;> omega
  | four ha hb hc hd hlow hhigh =>
    refine (decodeFrom_lead (opened_four ha.1 ha.2)).trans ?_
    refine (decodeFrom_more ?_ (Nat.succ_lt_succ Nat.zero_lt_two)).trans ?_
    · unfold IsTail at hb
      dsimp only
      split_ifs <;> omega
    · refine (decodeFrom_more ?_ (Nat.lt_succ_self 1)).trans (decodeFrom_last hd (Nat.le_refl 1))
      exact hc

theorem exists_isForm (h : decodeFrom offset none (a :: bytes) = .ok s) :
    ∃ form n rest, a :: bytes = form ++ rest ∧ IsForm form n := by
  by_cases hascii : a.toNat < 0x80
  · exact ⟨[a], _, bytes, rfl, .one hascii⟩
  · cases ho : Sequence.opened offset a with
    | none =>
      rw [decodeFrom, if_neg hascii, ho] at h
      cases h
    | some q =>
      rw [decodeFrom_lead ho] at h
      obtain ⟨b, rest, rfl, hlow, hhigh, hb⟩ := exists_of_decodeFrom_open h
      rcases opened_cases ho with ha | ha | ha
      · rw [opened_two ha.1 ha.2] at ho
        obtain rfl := Option.some.inj ho
        exact ⟨[a, b], _, rest, rfl, .two ha ⟨hlow, hhigh⟩⟩
      · rw [opened_three ha.1 ha.2] at ho
        obtain rfl := Option.some.inj ho
        obtain ⟨c, rest, rfl, hc, hc', -⟩ := exists_of_decodeFrom_open (hb (Nat.lt_succ_self 1))
        dsimp only at hlow hhigh
        refine ⟨[a, b, c], _, rest, rfl, .three ha ?_ ⟨hc, hc'⟩ ?_ ?_⟩
        · unfold IsTail
          split_ifs at hlow hhigh <;> omega
        · intro he
          rwa [if_pos he] at hlow
        · intro he
          rwa [if_pos he] at hhigh
      · rw [opened_four ha.1 ha.2] at ho
        obtain rfl := Option.some.inj ho
        obtain ⟨c, rest, rfl, hc, hc', hmore⟩ :=
          exists_of_decodeFrom_open (hb (Nat.succ_lt_succ Nat.zero_lt_two))
        obtain ⟨d, rest, rfl, hd, hd', -⟩ := exists_of_decodeFrom_open (hmore (Nat.lt_succ_self 1))
        dsimp only at hlow hhigh
        refine ⟨[a, b, c, d], _, rest, rfl, .four ha ?_ ⟨hc, hc'⟩ ⟨hd, hd'⟩ ?_ ?_⟩
        · unfold IsTail
          split_ifs at hlow hhigh <;> omega
        · intro he
          rwa [if_pos he] at hlow
        · intro he
          rwa [if_pos he] at hhigh

theorem encode_map (cs : List Char) : encode (cs.map CodePoint.char) = cs.flatMap String.utf8EncodeChar :=
  List.flatMap_map ..

theorem decodeFrom_encode (offset : ℕ) (cs : List Char) :
    decodeFrom offset none (encode (cs.map CodePoint.char)) = .ok (cs.map CodePoint.char) := by
  rw [encode_map]
  induction cs generalizing offset with
  | nil => rfl
  | cons c cs ih =>
    have hc : CodePoint.ofNat c.val.toNat = .char c := CodePoint.ofNat_toNat (.char c)
    rw [List.flatMap_cons, decodeFrom_of_isForm (isForm_encodeChar c), ih, hc]
    rfl

theorem exists_encode_of_decodeFrom (h : decodeFrom offset none bytes = .ok s) :
    ∃ cs : List Char, s = cs.map CodePoint.char ∧ bytes = encode s := by
  induction hlen : bytes.length using Nat.strongRecOn generalizing bytes offset s with
  | _ length ih =>
    cases bytes with
    | nil =>
      cases h
      exact ⟨[], rfl, rfl⟩
    | cons a bytes =>
      obtain ⟨form, n, rest, hbytes, hform⟩ := exists_isForm h
      rw [hbytes] at h hlen ⊢
      rw [decodeFrom_of_isForm hform] at h
      obtain ⟨t, ht, rfl⟩ := map_eq_ok.mp h
      have hlt : rest.length < length := by
        have hpos := hform.length_pos
        rw [← hlen, List.length_append]
        omega
      obtain ⟨cs, rfl, hrest⟩ := ih _ hlt ht rfl
      have hn := hform.ofNat_eq
      refine ⟨Char.ofNat n :: cs, by rw [hn]; rfl, ?_⟩
      rw [hn, ← List.map_cons, encode_map, List.flatMap_cons, hform.encodeChar, ← encode_map, ← hrest]

theorem decode_eq_ok_iff : decode bytes = .ok s ↔
    ∃ cs : List Char, s = cs.map CodePoint.char ∧ bytes = encode s := by
  constructor
  · exact exists_encode_of_decodeFrom
  · rintro ⟨cs, rfl, rfl⟩
    exact decodeFrom_encode 0 cs

end ColorCensus.Text.Utf8
