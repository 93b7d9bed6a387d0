import ColorCensus.Proofs.Color.Component
import ColorCensus.Proofs.Color.Saturation

namespace ColorCensus.Color

open Text Css CodePoint Rgba Candidate

variable {c : CodePoint} {s t name gap arguments : Text} {ws : List Text} {tokens : List Token}
  {g : Position → Position} {p : Position}

theorem Argument.ofNode_relocate (n : Node) : Argument.ofNode (n.relocate g) = Argument.ofNode n := by
  cases n with
  | token p t => cases t <;> rfl
  | function p name arguments closed => rfl
  | block p b content closed => rfl

theorem alphaOf_relocate (ns : List Node) : alphaOf (ns.map (Node.relocate g)) = alphaOf ns := by
  cases ns with
  | nil => rfl
  | cons n ns =>
    cases ns with
    | nil => rw [List.map_singleton, alphaOf, alphaOf, Argument.ofNode_relocate]
    | cons m ns => rfl

def Arguments.relocate (g : Position → Position) (a : Arguments) : Arguments :=
  ⟨a.first.relocate g, a.second.relocate g, a.third.relocate g, a.alpha.map (Node.relocate g), a.commas⟩

theorem Arguments.ofNodes_relocate (ns : List Node) :
    Arguments.ofNodes (ns.map (Node.relocate g)) = (Arguments.ofNodes ns).map (Arguments.relocate g) := by
  match ns with
  | [] | [_] | [_, _] | [_, _, _, _] | [_, _, _, _, _, _] | _ :: _ :: _ :: _ :: _ :: _ :: _ :: _ :: _ => rfl
  | [a, b, c] => rfl
  | [a, s, b, t, c] =>
    simp only [List.map_cons, List.map_nil, Arguments.ofNodes, Node.isDelimiter_relocate]
    split
    · rfl
    · split <;> rfl
  | [a, s, b, t, c, u, d] =>
    simp only [List.map_cons, List.map_nil, Arguments.ofNodes, Node.isDelimiter_relocate]
    split <;> rfl

theorem srgbOf_relocate (n : Node) (x y z : Argument) : srgbOf (n.relocate g) x y z = srgbOf n x y z := by
  cases n with
  | token p t => cases t <;> rfl
  | function p name arguments closed => rfl
  | block p b content closed => rfl

theorem functionShade_relocate (name : Text) (space : Option Node) (ns : List Node) :
    functionShade name (space.map (Node.relocate g)) (ns.map (Node.relocate g)) = functionShade name space ns := by
  have hchannels (a : Arguments) : functionChannels name (space.map (Node.relocate g)) (a.relocate g) =
      functionChannels name space a := by
    cases space with
    | none => simp only [functionChannels, Arguments.relocate, Argument.ofNode_relocate, Option.map_none]
    | some n =>
      simp only [functionChannels, Arguments.relocate, Argument.ofNode_relocate, Option.map_some, Option.bind_some,
        srgbOf_relocate]
  simp only [functionShade, bind, Arguments.ofNodes_relocate, Option.bind_map, Function.comp_def, hchannels]
  simp only [Arguments.relocate, alphaOf_relocate]

theorem normalize_congr (h : asciiLower t = asciiLower s) : normalize t = normalize s := by
  rw [normalize, normalize, read, read, lower_strip_congr h]

section

variable (hn : IsCallName c name) (hs : Spaced isWhite ws arguments) (hw : List.Forall₂ IsWord ws tokens)

include hn hs hw

theorem exists_lower_spaced_call (hg : IsGap isWhite gap) : ∃ gap' arguments', IsGap isWhite gap' ∧
    Spaced isWhite ws arguments' ∧ lower (strip (c :: name ++ char '(' :: (gap ++ arguments ++ [char ')']))) =
      c :: name ++ char '(' :: (gap' ++ arguments' ++ [char ')']) := by
  have hplain : ∀ d ∈ c :: name ++ [char '('], IsPlain d :=
    List.forall_mem_append.mpr ⟨hn.plain, List.forall_mem_singleton.mpr (.inr (by decide))⟩
  have hopen : (c :: name ++ [char '(']).map CodePoint.toLower = c :: name ++ [char '('] :=
    (List.map_congr_left fun d hd => (hplain d hd).classes.2.1).trans (List.map_id _)
  have happ (r : Text) : c :: name ++ char '(' :: (r ++ [char ')']) = c :: (name ++ char '(' :: r) ++ [char ')'] := by
    simp
  obtain ⟨gap', hg', -, hgap⟩ := hg.exists_lower ((c :: name ++ [char '(']).reverse ++ []) (arguments ++ [char ')'])
  obtain ⟨arguments', hs', harguments⟩ :=
    hs.exists_lower hw (gap.reverse ++ ((c :: name ++ [char '(']).reverse ++ [])) [char ')']
  refine ⟨gap', arguments', hg', hs', ?_⟩
  rw [happ, strip_of_ends hn.blank (by decide), ← happ, lower]
  have hsplit : c :: name ++ char '(' :: (gap ++ arguments ++ [char ')']) =
      (c :: name ++ [char '(']) ++ (gap ++ (arguments ++ [char ')'])) := by simp
  have hlast (before : Text) : lowerAfter before [char ')'] = [char ')'] := rfl
  rw [hsplit, lowerAfter_append_of_isAscii fun d hd => (hplain d hd).classes.1, hopen, hgap, harguments, hlast]
  simp

theorem clean_spaced_call (gap : Text) : clean (c :: name ++ char '(' :: (gap ++ arguments ++ [char ')'])) =
    c :: name ++ char '(' :: (clean gap ++ clean arguments ++ [char ')']) := by
  have hopen : clean (c :: name ++ [char '(']) = c :: name ++ [char '('] :=
    clean_of_forall (List.forall_mem_append.mpr ⟨fun d hd => (hn.plain d hd).classes.2.2, by simp⟩)
  have hlast : (c :: name ++ [char '(']).getLast? = some (char '(') := List.getLast?_concat
  have hhead : (arguments ++ [char ')']).head? ≠ some (char '\n') := by
    cases arguments with
    | nil => simp
    | cons d r => exact fun h => (classes_of_mem_wordChars _ (hs.head?_mem_wordChars hw _ h)).2.2.2.1 rfl
  have hsplit : c :: name ++ char '(' :: (gap ++ arguments ++ [char ')']) =
      (c :: name ++ [char '(']) ++ (gap ++ (arguments ++ [char ')'])) := by simp
  rw [hsplit, clean_append fun h => absurd (hlast.symm.trans h) (by decide), hopen, clean_append fun _ => hhead,
    clean_append fun _ => by simp]
  simp [clean]

theorem read_spaced_call (hg : IsGap isWhite gap) : ∃ ls : List (Position × Token),
    (ls.map Prod.snd).filter (fun token => !token.isSpace) = tokens ∧
      Node.read (c :: name ++ char '(' :: (gap ++ arguments ++ [char ')'])) =
        [.function .start (c :: name) (ls.map Node.ofToken) true] := by
  have hcut : CutsInto (Position.start.after (c :: name ++ [char '('])) (clean gap ++ clean arguments) [char ')']
      ([] ++ tokens) :=
    (hg.clean.1.cutsInto ((hs.clean hw).head?_isSpace hw [])).append ((hs.clean hw).cutsInto hw _ [])
  obtain ⟨ls, hls, hlex⟩ := hcut
  refine ⟨ls, hls, ?_⟩
  rw [Node.read, lexemes, clean_spaced_call hn hs hw, lexemesFrom_function hn.nameChars hn.start hn.url, hlex,
    lexemesFrom_close, lexemesFrom_nil, Node.ofLexemes, Assembly.run_cons, Assembly.run_append, Assembly.run_tokens]
  simp [Assembly.run, Assembly.step, Assembly.empty, Assembly.enter, Assembly.closeBracket, Opener.bracket,
    Opener.node, Assembly.finish, Assembly.closeAll]

theorem read_of_spaced_call (hg : IsGap isWhite gap) (hcolor : asciiLower (c :: name) ≠ "color") :
    read (c :: name ++ char '(' :: (gap ++ arguments ++ [char ')'])) =
      .ok ((functionShade (asciiLower (c :: name)) none (tokens.map (Node.token .start))).bind Shade.rgba?) := by
  obtain ⟨gap', arguments', hg', hs', hlower⟩ := exists_lower_spaced_call hn hs hw hg
  obtain ⟨ls, hls, hnodes⟩ := read_spaced_call hn hs' hw hg'
  have hp : (c :: name ++ char '(' :: (gap' ++ arguments' ++ [char ')'])).contains (char '(') = true := by simp
  have hplaces : ((ls.map Node.ofToken).filter fun n => !n.isSpace).map (Node.relocate fun _ => .start) =
      tokens.map (Node.token .start) := by
    rw [← hls, List.filter_map, List.filter_map, List.map_map, List.map_map]
    rfl
  have hshade : shade (c :: name ++ char '(' :: (gap' ++ arguments' ++ [char ')'])) =
      .ok (functionShade (asciiLower (c :: name)) none (tokens.map (Node.token .start))) := by
    rw [shade, hnodes]
    change nodeShade (.function .start (c :: name) (ls.map Node.ofToken) true) = _
    simp only [nodeShade]
    rw [if_neg hcolor, ← hplaces]
    exact congrArg Except.ok (functionShade_relocate _ none _).symm
  rw [read, hlower, if_neg (by simp), if_pos (by rw [hp, Bool.or_true]), hshade]
  rfl

end

theorem rgba?_opaque {x y z : Binary64} {red green blue : ℤ} (hx : toChannel (x / 255) = some red)
    (hy : toChannel (y / 255) = some green) (hz : toChannel (z / 255) = some blue) :
    Shade.rgba? ⟨⟨x / 255, y / 255, z / 255⟩, 1⟩ = some ⟨red, green, blue, 1⟩ := by
  have hfull : (1 : Binary64).isFinite = true ∧ (1 : Binary64).unitClamp.round alphaPlaces = 1 := by decide +kernel
  unfold Shade.rgba?
  dsimp only
  rw [hx, hy, hz, hfull.2]
  exact if_pos hfull.1

theorem text_opaque (red green blue : ℤ) : Rgba.text ⟨red, green, blue, 1⟩ =
    "rgb(" ++ join ", " [integer red, integer green, integer blue] ++ ")" := by
  have hopaque : Rgba.isOpaque ⟨red, green, blue, 1⟩ = true := show Binary64.le 1 1 = true by decide +kernel
  rw [Rgba.text, if_pos hopaque]
  rfl

inductive IsOpaqueCall (red green blue : Text) : List Text → Prop where
  | commas : IsOpaqueCall red green blue [red, ",", green, ",", blue]
  | spaces : IsOpaqueCall red green blue [red, green, blue]
  | commasFull : IsOpaqueCall red green blue [red, ",", green, ",", blue, ",", "1"]
  | spacesFull : IsOpaqueCall red green blue [red, green, blue, "/", "100%"]

section

variable {red green blue : Text} {r g b : ℤ} (hwords : IsOpaqueCall red green blue ws)
  (hr : IsNumeral red r) (hg : IsNumeral green g) (hb : IsNumeral blue b)

include hwords hr hg hb

theorem exists_tokens (hname : name = "rgb" ∨ name = "rgba") :
    ∃ tokens, List.Forall₂ IsWord ws tokens ∧ functionShade name none (tokens.map (Node.token .start)) =
      some ⟨⟨numberValue red / 255, numberValue green / 255, numberValue blue / 255⟩, 1⟩ := by
  have hone : (numberValue "1").unitClamp = 1 ∧ (numberValue "100" / 100).unitClamp = 1 := by decide +kernel
  have hdigit : IsNumeral "1" (ofDecimal "1") := .unsigned (by decide) (by decide)
  cases hwords with
  | commas =>
    refine ⟨_, .cons (.numeral hr) (.cons .comma (.cons (.numeral hg) (.cons .comma (.cons (.numeral hb) .nil)))), ?_⟩
    rcases hname with rfl | rfl <;> rfl
  | spaces =>
    refine ⟨_, .cons (.numeral hr) (.cons (.numeral hg) (.cons (.numeral hb) .nil)), ?_⟩
    rcases hname with rfl | rfl <;> rfl
  | commasFull =>
    refine ⟨_, .cons (.numeral hr) (.cons .comma (.cons (.numeral hg) (.cons .comma (.cons (.numeral hb)
      (.cons .comma (.cons (.numeral hdigit) .nil)))))), ?_⟩
    rw [← hone.1]
    rcases hname with rfl | rfl <;> rfl
  | spacesFull =>
    refine ⟨_, .cons (.numeral hr) (.cons (.numeral hg) (.cons (.numeral hb) (.cons .slash (.cons .full .nil)))), ?_⟩
    rw [← hone.2]
    rcases hname with rfl | rfl <;> rfl

theorem normalize_opaque_call (hdigits : ∀ w ∈ [red, green, blue], w.countP CodePoint.isDigit ≤ 300)
    (hgap : IsGap isWhite gap) (hs : Spaced isWhite ws arguments) (hn : IsCallName c name)
    (hname : c :: name = "rgb" ∨ c :: name = "rgba") :
    normalize (c :: name ++ char '(' :: (gap ++ arguments ++ [char ')'])) =
      .ok (some (Rgba.text ⟨max 0 (min 255 r), max 0 (min 255 g), max 0 (min 255 b), 1⟩)) := by
  obtain ⟨hdr, hdg, hdb⟩ : _ ∧ _ ∧ _ := by simpa using hdigits
  have hrgba := rgba?_opaque (toChannel_numeral hr hdr) (toChannel_numeral hg hdg) (toChannel_numeral hb hdb)
  obtain ⟨tokens, hw, hshade⟩ := exists_tokens hwords hr hg hb hname
  have hlower : asciiLower (c :: name) = c :: name ∧ c :: name ≠ "color" := by
    rcases hname with h | h <;> rw [h] <;> decide
  rw [normalize, read_of_spaced_call hn hs hw hgap (by rw [hlower.1]; exact hlower.2), hlower.1, hshade,
    Option.bind_some, hrgba]
  rfl

end

def hexByte (n : ℕ) : Text := padLeft 2 '0' (hex n)

theorem exists_hexByte {n : ℕ} (h : n ≤ 255) : ∃ c d, hexByte n = [c, d] ∧ hexPair c d = n ∧
    ∀ x ∈ [c, d], isHex x = true ∧ x ∈ nameChars := by
  have hall : ∀ n < 256, (hexByte n).length = 2 ∧ ofHex (hexByte n) = n ∧
      ∀ x ∈ hexByte n, isHex x = true ∧ x ∈ nameChars := by decide +kernel
  obtain ⟨hl, hv, hx⟩ := hall n (by omega)
  obtain ⟨c, d, hcd⟩ := List.length_eq_two.mp hl
  rw [hcd] at hv hx
  exact ⟨c, d, hcd, hv, hx⟩

theorem normalize_hexBytes {r g b : ℕ} (hr : r ≤ 255) (hg : g ≤ 255) (hb : b ≤ 255) {tail : Text}
    (ht : tail = [] ∨ tail = "ff") : normalize (char '#' :: (hexByte r ++ hexByte g ++ hexByte b ++ tail)) =
      .ok (some (Rgba.text ⟨r, g, b, 1⟩)) := by
  obtain ⟨r₁, r₂, hr', hrv, hrx⟩ := exists_hexByte hr
  obtain ⟨g₁, g₂, hg', hgv, hgx⟩ := exists_hexByte hg
  obtain ⟨b₁, b₂, hb', hbv, hbx⟩ := exists_hexByte hb
  have htail : ∀ x ∈ tail, isHex x = true ∧ x ∈ nameChars := by
    rcases ht with rfl | rfl <;> decide
  have hx : ∀ x ∈ hexByte r ++ hexByte g ++ hexByte b ++ tail, isHex x = true ∧ x ∈ nameChars := by
    rw [hr', hg', hb']
    exact List.forall_mem_append.mpr ⟨List.forall_mem_append.mpr ⟨List.forall_mem_append.mpr ⟨hrx, hgx⟩, hbx⟩, htail⟩
  have hall : (hexByte r ++ hexByte g ++ hexByte b ++ tail).all isHex = true :=
    List.all_eq_true.mpr fun x hm => (hx x hm).1
  have hfull : byteFraction 255 = 1 ∧ hexPair 'f' 'f' = 255 := by decide +kernel
  have hshade : hexShade (hexByte r ++ hexByte g ++ hexByte b ++ tail) = some (.ofBytes r g b 255) := by
    rw [hr', hg', hb'] at hall ⊢
    rw [← hrv, ← hgv, ← hbv]
    rcases ht with rfl | rfl
    · exact if_pos hall
    · rw [← hfull.2]
      exact if_pos hall
  have hrgba : (Shade.ofBytes r g b 255).rgba? = some ⟨r, g, b, 1⟩ := by
    rw [Shade.ofBytes, hfull.1]
    exact rgba?_opaque (toChannel_byte hr) (toChannel_byte hg) (toChannel_byte hb)
  rw [normalize_hash (fun x hm => (hx x hm).2) (by simp [hr']), hshade, Option.bind_some, hrgba]
  rfl

inductive Spells : ℤ → ℤ → ℤ → Text → Prop where
  | call {name red green blue gap arguments : Text} {r g b : ℤ} {ws : List Text}
    (hname : asciiLower name = "rgb" ∨ asciiLower name = "rgba")
    (hr : IsNumeral red r) (hg : IsNumeral green g) (hb : IsNumeral blue b)
    (hdigits : ∀ w ∈ [red, green, blue], w.countP CodePoint.isDigit ≤ 300)
    (hwords : IsOpaqueCall red green blue ws) (hgap : IsGap isWhite gap) (hs : Spaced isWhite ws arguments) :
    Spells r g b (name ++ "(" ++ gap ++ arguments ++ ")")
  | hash {digits tail : Text} {r g b : ℕ} (hr : r ≤ 255) (hg : g ≤ 255) (hb : b ≤ 255)
    (hdigits : asciiLower digits = hexByte r ++ hexByte g ++ hexByte b ++ tail) (ht : tail = [] ∨ tail = "ff") :
    Spells r g b ("#" ++ digits)

theorem normalize_of_spells {red green blue : ℤ} (h : Spells red green blue s) : normalize s = .ok (some
    ("rgb(" ++ join ", " ([red, green, blue].map fun n => integer (max 0 (min 255 n))) ++ ")")) := by
  cases h with
  | @call name _ _ _ gap arguments _ _ _ ws hname hr hg hb hdigits hwords hgap hs =>
    have hcase : normalize (name ++ "(" ++ gap ++ arguments ++ ")") =
        normalize (asciiLower name ++ char '(' :: (gap ++ arguments ++ [char ')'])) := by
      refine normalize_congr ?_
      simp [asciiLower_append, asciiLower_asciiLower, ofString]
    rw [hcase, List.map_cons, List.map_cons, List.map_singleton, ← text_opaque]
    rcases hname with hlower | hlower
    · rw [hlower]
      exact normalize_opaque_call hwords hr hg hb hdigits hgap hs isCallName_rgb (.inl rfl)
    · rw [hlower]
      exact normalize_opaque_call hwords hr hg hb hdigits hgap hs isCallName_rgba (.inr rfl)
  | @hash digits tail r g b hr hg hb hdigits ht =>
    have hcase : normalize ("#" ++ digits) = normalize ("#" ++ (hexByte r ++ hexByte g ++ hexByte b ++ tail)) :=
      normalize_congr (by rw [asciiLower_append, asciiLower_append, ← hdigits, asciiLower_asciiLower])
    have hclamp {n : ℕ} (h : n ≤ 255) : max 0 (min 255 (n : ℤ)) = n := by omega
    rw [hcase, List.map_cons, List.map_cons, List.map_singleton, hclamp hr, hclamp hg, hclamp hb, ← text_opaque]
    exact normalize_hexBytes hr hg hb ht

theorem normalize_of_spells_wide : normalize "RGB(+300/* x */-5 007/100%)" = .ok (some "rgb(255, 0, 7)") ∧
    normalize "#Ff0007fF" = .ok (some "rgb(255, 0, 7)") := by
  have hr : IsNumeral "+300" 300 := .positive (by decide) (by decide)
  have hg : IsNumeral "-5" (-5) := .negative (by decide) (by decide)
  have hb : IsNumeral "007" 7 := .unsigned (by decide) (by decide)
  have hcomment : IsGap isWhite "/* x */" := @IsGap.comment isWhite " x " [] (by decide) .nil
  have hslash : Spaced isWhite ["/", "100%"] "/100%" := .cons .nil (.cons .nil .nil (by decide)) (by decide)
  have hspace : Spaced isWhite ["-5", "007", "/", "100%"] "-5 007/100%" :=
    .cons (.space (by decide) .nil) (.cons .nil hslash (by decide)) (by decide)
  have harguments : Spaced isWhite ["+300", "-5", "007", "/", "100%"] "+300/* x */-5 007/100%" :=
    .cons hcomment hspace (by decide)
  have hcall : Spells 300 (-5) 7 "RGB(+300/* x */-5 007/100%)" :=
    @Spells.call "RGB" _ _ _ [] _ _ _ _ _ (.inl rfl) hr hg hb (by decide) .spacesFull .nil harguments
  have hhash : Spells 255 0 7 "#Ff0007fF" := @Spells.hash "Ff0007fF" "ff" 255 0 7 (by decide) (by decide) (by decide)
    (by decide) (.inr rfl)
  exact ⟨normalize_of_spells hcall, normalize_of_spells hhash⟩

end ColorCensus.Color
