import ColorCensus.Proofs.Color.Opacity
import ColorCensus.Proofs.Css.Lexing

namespace ColorCensus.Color

open Text Css CodePoint Rgba

variable {r s : Text} {rs : List Text} {p : Position}

def arguments : List Text → Text
  | [] => [char ')']
  | [r] => r ++ [char ')']
  | r :: s :: rs => r ++ char ',' :: char ' ' :: arguments (s :: rs)

inductive IsArguments : List Text → List Node → Prop where
  | last (p : Position) (r : Text) : IsArguments [r] [.token p (.number r)]
  | cons (p₁ p₂ p₃ : Position) (r : Text) {rs : List Text} {ns : List Node}
    (h : IsArguments rs ns) : IsArguments (r :: rs)
      (.token p₁ (.number r) :: .token p₂ (.delimiter [char ',']) ::
        .token p₃ (.space [char ' ']) :: ns)

theorem head_of_numeral (h : Numeral r) : ∀ c ∈ (r ++ s).head?, isSpace c = false := by
  obtain ⟨c, t, rfl, hc⟩ := h.exists_cons
  intro d hd
  cases hd
  exact (classes_of_isDigit hc).1

theorem head_of_arguments (h : Numeral r) : ∀ c ∈ (arguments (r :: rs)).head?, isSpace c = false := by
  cases rs with
  | nil => exact head_of_numeral h
  | cons s rs => exact head_of_numeral h

theorem run_arguments (h : ∀ r ∈ rs, Numeral r) (h0 : rs ≠ []) {f : Frame}
    (hf : f.opener.bracket = .round) (before : List Node) (frames : List Frame) :
    ∃ ns, IsArguments rs ns ∧
      (Assembly.mk before (f :: frames)).run (lexemesFrom p (arguments rs)) =
        ⟨f.opener.node f.position (before.reverse ++ ns) true :: f.before, frames⟩ := by
  induction rs generalizing p before with
  | nil => exact absurd rfl h0
  | cons r rs ih =>
    obtain ⟨hr, hrs⟩ := List.forall_mem_cons.mp h
    cases rs with
    | nil =>
      have he : EndsNumber [char ')'] := by
        rintro c ⟨⟩
        decide
      refine ⟨_, .last p r, ?_⟩
      rw [arguments, lexemesFrom_numeral hr he, lexemesFrom_close, lexemesFrom_nil]
      simp [Assembly.run, Assembly.step, Assembly.add, Assembly.closeBracket, hf]
    | cons s rs =>
      have he : EndsNumber (char ',' :: char ' ' :: arguments (s :: rs)) := by
        rintro c ⟨⟩
        decide
      rw [arguments, lexemesFrom_numeral hr he, lexemesFrom_comma,
        lexemesFrom_space (head_of_arguments (hrs s (by simp)))]
      obtain ⟨ns, hns, hrun⟩ := ih hrs (by simp)
        (.token ((p.after r).after [char ',']) (.space [char ' ']) ::
          .token (p.after r) (.delimiter [char ',']) :: .token p (.number r) :: before)
      refine ⟨_, .cons p (p.after r) ((p.after r).after [char ',']) r hns, ?_⟩
      refine hrun.trans ?_
      simp

def IsPlain (c : CodePoint) : Prop := c.isDigit = true ∨ c ∈ ("rgba(), ." : Text)

instance (c : CodePoint) : Decidable (IsPlain c) := inferInstanceAs (Decidable (_ ∨ _))

theorem IsPlain.classes {c : CodePoint} (h : IsPlain c) :
    isAscii c = true ∧ c.toLower = c ∧ c ≠ char '\r' ∧ c ≠ char '\x0c' ∧ c ≠ char '\x00' := by
  rcases h with h | h
  · obtain ⟨n, rfl⟩ := exists_of_isDigit h
    clear h
    revert n
    decide
  · revert c
    decide

theorem isPlain_of_numeral (h : Numeral r) : ∀ c ∈ r, IsPlain c :=
  h.forall_mem (fun _ hd => .inl hd) (.inr (by decide))

theorem isPlain_arguments (h : ∀ r ∈ rs, Numeral r) : ∀ c ∈ arguments rs, IsPlain c := by
  fun_induction arguments rs with
  | case1 =>
    intro c hc
    rw [List.mem_singleton.mp hc]
    exact .inr (by decide)
  | case2 r =>
    intro c hc
    rcases List.mem_append.mp hc with hc | hc
    · exact isPlain_of_numeral (h r (by simp)) c hc
    · rw [List.mem_singleton.mp hc]
      exact .inr (by decide)
  | case3 r s rs ih =>
    intro c hc
    obtain ⟨hr, hrs⟩ := List.forall_mem_cons.mp h
    rw [List.mem_append, List.mem_cons, List.mem_cons] at hc
    rcases hc with hc | rfl | rfl | hc
    · exact isPlain_of_numeral hr c hc
    · exact .inr (by decide)
    · exact .inr (by decide)
    · exact ih hrs c hc

theorem strip_of_ends {c d : CodePoint} (hc : isBlank c = false) (hd : isBlank d = false) :
    strip (c :: s ++ [d]) = c :: s ++ [d] := by
  rw [strip, List.cons_append, List.dropWhile_cons_of_neg (by simp [hc]), ← List.cons_append,
    dropTrailing, List.reverse_append, List.reverse_singleton, List.singleton_append,
    List.dropWhile_cons_of_neg (by simp [hd])]
  simp

theorem arguments_append (rs : List Text) : ∃ s, arguments rs = s ++ [char ')'] := by
  fun_induction arguments rs with
  | case1 => exact ⟨[], rfl⟩
  | case2 r => exact ⟨r, rfl⟩
  | case3 r s rs ih =>
    obtain ⟨t, ht⟩ := ih
    exact ⟨r ++ char ',' :: char ' ' :: t, by simp [ht]⟩

theorem clean_of_isPlain (h : ∀ c ∈ s, IsPlain c) : clean s = s :=
  clean_of_forall fun c hc => (h c hc).classes.2.2

theorem lower_of_isPlain (h : ∀ c ∈ s, IsPlain c) : lower s = s := by
  rw [lower_of_isAscii fun c hc => (h c hc).classes.1]
  exact (List.map_congr_left fun c hc => (h c hc).classes.2.1).trans (List.map_id _)

def call (c : CodePoint) (name : Text) (rs : List Text) : Text :=
  c :: name ++ char '(' :: arguments rs

variable {c : CodePoint} {name : Text}

structure IsCallName (c : CodePoint) (name : Text) : Prop where
  plain : ∀ d ∈ c :: name, IsPlain d
  nameChars : ∀ d ∈ c :: name, isNameChar d = true
  start : isNameStart c = true ∧ c ≠ char 'u' ∧ c ≠ char 'U'
  blank : isBlank c = false
  url : asciiLower (c :: name) ≠ "url"

theorem isPlain_call (hn : IsCallName c name) (h : ∀ r ∈ rs, Numeral r) :
    ∀ d ∈ call c name rs, IsPlain d := by
  intro d hd
  rcases List.mem_append.mp hd with hd | hd
  · exact hn.plain d hd
  · rcases List.mem_cons.mp hd with rfl | hd
    · exact .inr (by decide)
    · exact isPlain_arguments h d hd

theorem nodes_call (hn : IsCallName c name) (h : ∀ r ∈ rs, Numeral r) (h0 : rs ≠ []) :
    ∃ ns, IsArguments rs ns ∧ Node.read (call c name rs) = [.function .start (c :: name) ns true] := by
  obtain ⟨ns, hns, hrun⟩ := run_arguments (p := Position.start.after (c :: name ++ [char '('])) h h0
    (f := ⟨.start, .function (c :: name), []⟩) rfl [] []
  refine ⟨ns, hns, ?_⟩
  rw [Node.read, lexemes, clean_of_isPlain (isPlain_call hn h), call,
    lexemesFrom_function hn.nameChars hn.start hn.url]
  exact congrArg Assembly.finish hrun

theorem lower_call (hn : IsCallName c name) (h : ∀ r ∈ rs, Numeral r) :
    lower (strip (call c name rs)) = call c name rs := by
  obtain ⟨s, hs⟩ := arguments_append rs
  have hcall : call c name rs = c :: (name ++ char '(' :: s) ++ [char ')'] := by simp [call, hs]
  have hstrip : strip (call c name rs) = call c name rs := by
    rw [hcall]
    exact strip_of_ends hn.blank (by decide)
  rw [hstrip, lower_of_isPlain (isPlain_call hn h)]

theorem read_call (hn : IsCallName c name) (rs : List Text) (h : ∀ r ∈ rs, Numeral r) (h0 : rs ≠ []) :
    ∃ ns, IsArguments rs ns ∧ read (call c name rs) =
      (nodeShade (.function .start (c :: name) ns true)).map fun s => s.bind Shade.rgba? := by
  obtain ⟨ns, hns, hnodes⟩ := nodes_call hn h h0
  have hp : (call c name rs).contains (char '(') = true := by simp [call]
  refine ⟨ns, hns, ?_⟩
  unfold read
  rw [lower_call hn h, if_neg (by simp [call]), if_pos (by rw [hp, Bool.or_true]), shade, hnodes]
  rfl

variable {g b a : Text}

theorem isCallName_rgb : IsCallName (char 'r') (ofString "gb") :=
  ⟨by decide, by decide, by decide, by decide, by decide⟩

theorem isCallName_rgba : IsCallName (char 'r') (ofString "gba") :=
  ⟨by decide, by decide, by decide, by decide, by decide⟩

theorem read_rgb (hr : Numeral r) (hg : Numeral g) (hb : Numeral b) :
    read (call (char 'r') (ofString "gb") [r, g, b]) =
      .ok (Shade.rgba? ⟨⟨numberValue r / 255, numberValue g / 255, numberValue b / 255⟩, 1⟩) := by
  obtain ⟨ns, hns, h⟩ := read_call isCallName_rgb [r, g, b] (by simp [hr, hg, hb]) (by simp)
  obtain _ | ⟨_, _, _, _, hns⟩ := hns
  obtain _ | ⟨_, _, _, _, hns⟩ := hns
  cases hns with
  | last => exact h
  | cons _ _ _ _ hns => cases hns

theorem read_rgba (hr : Numeral r) (hg : Numeral g) (hb : Numeral b) (ha : Numeral a) :
    read (call (char 'r') (ofString "gba") [r, g, b, a]) =
      .ok (Shade.rgba? ⟨⟨numberValue r / 255, numberValue g / 255, numberValue b / 255⟩,
        (numberValue a).unitClamp⟩) := by
  obtain ⟨ns, hns, h⟩ := read_call isCallName_rgba [r, g, b, a] (by simp [hr, hg, hb, ha])
    (by simp)
  obtain _ | ⟨_, _, _, _, hns⟩ := hns
  obtain _ | ⟨_, _, _, _, hns⟩ := hns
  obtain _ | ⟨_, _, _, _, hns⟩ := hns
  cases hns with
  | last => exact h
  | cons _ _ _ _ hns => cases hns

theorem numeral_natural (k : ℕ) : Numeral (natural k) := by
  cases h : natural k with
  | nil => exact absurd h (natural_ne_nil k)
  | cons c s => exact .whole c s fun d hd => isDigit_of_mem_natural (h ▸ hd)

theorem numeral_opacityText {k : ℕ} (h : k < 1000) : Numeral (opacityText k) := by
  rcases Nat.eq_zero_or_pos k with rfl | h0
  · rw [opacityText_zero, ← natural_zero]
    exact numeral_natural 0
  · obtain ⟨s, hs, -, hd, ht, -⟩ := opacityText_of_pos h0 h
    rw [ht]
    exact .fraction (char '0') [] s (by simp; decide) hd hs

theorem rgba?_bytes {k l m n : ℕ} (hk : k ≤ 255) (hl : l ≤ 255) (hm : m ≤ 255) (hn : n ≤ 1000) :
    Shade.rgba? ⟨⟨Binary64.ofInt k / 255, Binary64.ofInt l / 255, Binary64.ofInt m / 255⟩, opacity n⟩ =
      some ⟨k, l, m, opacity n⟩ := by
  have hf : (opacity n).isFinite = true := by
    rw [opacity_eq hn]
    rfl
  unfold Shade.rgba?
  dsimp only
  rw [toChannel_byte hk, toChannel_byte hl, toChannel_byte hm, unitClamp_opacity hn, round_opacity hn]
  exact if_pos hf

theorem isOpaque_opacity {c : Rgba} {n : ℕ} (h : n ≤ 1000) (hc : c.alpha = opacity n) :
    c.isOpaque = decide (n = 1000) := by
  have h1 : (1 : Binary64) = .finite 1 := Binary64.literal_eq_finite 1 (by norm_num)
  rw [isOpaque, hc]
  by_cases hn : n = 1000
  · subst hn
    rw [opacity_thousand, h1]
    rfl
  · have hu := nearest_thousandths_upper (k := n) (n := 0) (by omega) (by omega) (by omega)
    rw [pow_zero, div_one] at hu
    rw [opacity_eq h, h1, Binary64.le_finite, decide_eq_true hu, decide_eq_false hn]
    rfl

theorem text_of_solid {k l m : ℕ} {x : Binary64} (h : isOpaque ⟨k, l, m, x⟩ = true) :
    Rgba.text ⟨k, l, m, x⟩ = call (char 'r') (ofString "gb") [natural k, natural l, natural m] := by
  rw [Rgba.text, if_pos h]
  simp [channelsText, join, List.intercalate, integer, call, arguments, ofString]

theorem text_of_translucent {k l m n : ℕ} (hn : n < 1000) :
    Rgba.text ⟨k, l, m, opacity n⟩ =
      call (char 'r') (ofString "gba") [natural k, natural l, natural m, opacityText n] := by
  have ho := isOpaque_opacity (c := ⟨k, l, m, opacity n⟩) hn.le rfl
  rw [Rgba.text, if_neg (by simp [ho, hn.ne]), round_opacity hn.le, toGeneral_opacity hn]
  simp [channelsText, join, List.intercalate, integer, call, arguments, ofString]

theorem text_opacity {red green blue k : ℕ} (hk : k < 1000) :
    Rgba.text ⟨red, green, blue, opacity k⟩ =
      "rgba(" ++ join ", " [natural red, natural green, natural blue, opacityText k] ++ ")" := by
  rw [text_of_translucent hk]
  simp [call, arguments, join, List.intercalate, ofString]

theorem text_solid {red green blue : ℕ} : Rgba.text ⟨red, green, blue, opacity 1000⟩ =
    "rgb(" ++ join ", " [natural red, natural green, natural blue] ++ ")" := by
  rw [text_of_solid (by simp [isOpaque_opacity le_rfl])]
  simp [call, arguments, join, List.intercalate, ofString]

theorem read_text {c : Rgba} (h : c.IsCanonical) : read c.text = .ok (some c) := by
  obtain ⟨red, green, blue, n, hr, hg, hb, hn, rfl⟩ := h.exists_bytes
  have hbytes := rgba?_bytes hr hg hb hn
  by_cases ho : n = 1000
  · have hop := isOpaque_opacity (c := ⟨red, green, blue, opacity n⟩) hn rfl
    rw [text_of_solid (by rw [hop, decide_eq_true ho]),
      read_rgb (numeral_natural _) (numeral_natural _) (numeral_natural _), numberValue_natural hr,
      numberValue_natural hg, numberValue_natural hb, ← opacity_thousand, ← ho, hbytes]
  · have hlt : n < 1000 := by omega
    rw [text_of_translucent hlt, read_rgba (numeral_natural _) (numeral_natural _) (numeral_natural _)
      (numeral_opacityText hlt), numberValue_natural hr, numberValue_natural hg, numberValue_natural hb,
      numberValue_opacityText hlt, unitClamp_opacity hn, hbytes]

theorem normalize_text {c : Rgba} (h : c.IsCanonical) : normalize c.text = .ok (some c.text) := by
  rw [normalize, read_text h]
  rfl

theorem exists_of_normalize {t s : Text} (h : normalize t = .ok (some s)) :
    ∃ c : Rgba, c.IsCanonical ∧ read t = .ok (some c) ∧ s = c.text := by
  cases hr : read t with
  | error e =>
    rw [normalize, hr] at h
    cases h
  | ok c =>
    rw [normalize, hr] at h
    cases c with
    | none => cases h
    | some c =>
      have hs : some c.text = some s := Except.ok.inj h
      exact ⟨c, read_isCanonical hr, rfl, (Option.some.inj hs).symm⟩

def IsShortFraction (a : Text) : Prop :=
  a = "0" ∨ ∃ digits : Text, digits ≠ [] ∧ digits.length ≤ 3 ∧ (∀ c ∈ digits, c.isDigit = true) ∧
    a = "0." ++ digits

inductive Written : Rgba → Text → Prop where
  | solid (red green blue : ℕ) (hr : red ≤ 255) (hg : green ≤ 255) (hb : blue ≤ 255) :
    Written ⟨red, green, blue, 1⟩
      ("rgb(" ++ join ", " [natural red, natural green, natural blue] ++ ")")
  | translucent (red green blue : ℕ) (hr : red ≤ 255) (hg : green ≤ 255) (hb : blue ≤ 255) (a : Text)
    (ha : IsShortFraction a) :
    Written ⟨red, green, blue, numberValue a⟩
      ("rgba(" ++ join ", " [natural red, natural green, natural blue, a] ++ ")")

theorem isShortFraction_opacityText {n : ℕ} (h : n < 1000) : IsShortFraction (opacityText n) := by
  rcases Nat.eq_zero_or_pos n with rfl | h0
  · exact .inl rfl
  · obtain ⟨s, hs, hl, hd, ht, -⟩ := opacityText_of_pos h0 h
    exact .inr ⟨s, hs, hl, hd, ht⟩

theorem written_text {c : Rgba} (h : c.IsCanonical) : Written c c.text := by
  obtain ⟨red, green, blue, n, hr, hg, hb, hn, rfl⟩ := h.exists_bytes
  rcases hn.lt_or_eq with hlt | rfl
  · rw [text_opacity hlt, ← numberValue_opacityText hlt]
    exact .translucent red green blue hr hg hb _ (isShortFraction_opacityText hlt)
  · rw [text_solid, opacity_thousand]
    exact .solid red green blue hr hg hb

theorem normalize_idempotent {t s : Text} (h : normalize t = .ok (some s)) :
    normalize s = .ok (some s) ∧
      ∃ c : Rgba, read t = .ok (some c) ∧ read s = .ok (some c) ∧ Written c s := by
  obtain ⟨c, hc, hr, rfl⟩ := exists_of_normalize h
  exact ⟨normalize_text hc, c, hr, read_text hc, written_text hc⟩

theorem normalize_idempotent_hex :
    normalize "#ff000080" = .ok (some "rgba(255, 0, 0, 0.502)") ∧
      normalize "rgba(255, 0, 0, 0.502)" = .ok (some "rgba(255, 0, 0, 0.502)") :=
  have h : normalize "#ff000080" = .ok (some "rgba(255, 0, 0, 0.502)") := by decide +kernel
  ⟨h, (normalize_idempotent h).1⟩

end ColorCensus.Color
