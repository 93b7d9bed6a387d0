import ColorCensus.Proofs.Color.Answer
import ColorCensus.Proofs.Color.Separation
import ColorCensus.Proofs.Color.Written
import ColorCensus.Proofs.Outcome

namespace ColorCensus

open Text CodePoint

variable {c d : CodePoint} {s t : Text} {previous : Option CodePoint}

namespace Text

def smallLetters : Text := block 97 26

def nameChars : Text := smallLetters ++ block 48 10 ++ [char '-']

def IsName (s : Text) : Prop := ∀ c ∈ s, c ∈ nameChars

theorem IsName.of_append (h : IsName (s ++ t)) : IsName s ∧ IsName t := List.forall_mem_append.mp h

theorem IsName.mem_hash (h : IsName s) : ∀ c ∈ char '#' :: s, c ∈ char '#' :: nameChars :=
  List.forall_mem_cons.mpr ⟨List.mem_cons_self, fun c hc => List.mem_cons_of_mem _ (h c hc)⟩

theorem classes_of_mem_nameChars : ∀ c ∈ nameChars, c ≠ char '(' ∧ c ≠ char '#' ∧ c ≠ Candidate.boundary ∧
    Candidate.isWordEnd c = false ∧ (c ≠ char '-' → isWord c = true) := by
  decide

theorem IsName.isWord (h : IsName s) (hs : char '-' ∉ s) : ∀ c ∈ s, isWord c = true := fun c hc =>
  (classes_of_mem_nameChars c (h c hc)).2.2.2.2 fun hm => hs (hm ▸ hc)

def afterHyphen (s : Text) : Text := (split '-' s).getLast (split_ne_nil '-' s)

theorem afterHyphen_of_not_mem (h : char '-' ∉ s) : afterHyphen s = s := by
  simp only [afterHyphen, split_eq_singleton h, List.getLast_singleton]

theorem afterHyphen_append (h : char '-' ∉ s) (t : Text) : afterHyphen (s ++ char '-' :: t) = afterHyphen t := by
  simp only [afterHyphen, split_append h, List.getLast_cons (split_ne_nil (char '-') t)]

def isLetters (s : Text) : Bool := s != [] && s.all isAlpha

theorem isLetters_iff : isLetters s = true ↔ s ≠ [] ∧ ∀ c ∈ s, isAlpha c = true := by
  rw [isLetters, Bool.and_eq_true, bne_iff_ne, List.all_eq_true]

def IsAddress (s : Text) : Prop := ∀ c ∈ s, c ∈ nameChars ++ [char '.', char '/']

instance : Decidable (IsAddress s) := inferInstanceAs (Decidable (∀ c ∈ s, _))

def addressWords (s : Text) : List Text := (((split '/' s).flatMap (split '.')).map afterHyphen).filter isLetters

end Text

namespace Candidate

theorem length_name (h : IsName s) : length previous s = wordLength previous s := by
  have hround : char '(' ∉ s := fun hm => (classes_of_mem_nameChars _ (h _ hm)).1 rfl
  have hhash : ∀ c ∈ s.head?, c ≠ char '#' := fun c hc =>
    (classes_of_mem_nameChars c (h c (List.mem_of_mem_head? hc))).2.1
  rw [length_eq, functionLength_of_not_mem hround, hashLength_of_head? hhash]
  rfl

theorem wordLength_unfinished (hs : ∀ c ∈ s, isAlpha c = true) (hd : isAlpha d = false ∧ isWordEnd d = false) :
    wordLength previous (s ++ d :: t) = 0 := by
  rw [wordLength_append hs (by simpa using hd.1)]
  simp [hd.2]

theorem candidatesFrom_inside (hc : isWord c = true) (h : IsName (s ++ t)) (hs : char '-' ∉ s) :
    ∃ d, isWord d = true ∧ candidatesFrom (some c) (s ++ t) = candidatesFrom (some d) t := by
  induction s generalizing c with
  | nil => exact ⟨c, hc, rfl⟩
  | cons e s ih =>
    have he : isWord e = true := IsName.isWord h.of_append.1 hs e List.mem_cons_self
    have hl : length (some c) (e :: s ++ t) = 0 := by
      rw [length_name h, wordLength]
      simp [hc]
    rw [List.cons_append] at hl ⊢
    rw [candidatesFrom_skip hl]
    exact ih he (List.forall_mem_cons.mp h).2 fun hm => hs (List.mem_cons_of_mem e hm)

theorem candidatesFrom_of_length (h : IsName (s ++ t)) (hs : char '-' ∉ s) (h0 : s ≠ [])
    (hl : length none (s ++ t) = 0) :
    ∃ d, isWord d = true ∧ candidatesFrom none (s ++ t) = candidatesFrom (some d) t := by
  obtain ⟨c, s, rfl⟩ := List.exists_cons_of_ne_nil h0
  have hc : isWord c = true := IsName.isWord h.of_append.1 hs c List.mem_cons_self
  rw [List.cons_append] at hl ⊢
  rw [candidatesFrom_skip hl]
  exact candidatesFrom_inside hc (List.forall_mem_cons.mp h).2 fun hm => hs (List.mem_cons_of_mem c hm)

theorem candidatesFrom_hyphen (t : Text) : candidatesFrom previous (char '-' :: t) = candidatesFrom none t := by
  have hl : length previous (char '-' :: t) = 0 := length_cons rfl rfl (by decide)
  rw [candidatesFrom_skip hl, candidatesFrom_some (by decide)]

theorem candidatesFrom_before_hyphen (h : IsName (s ++ char '-' :: t)) (hs : char '-' ∉ s) :
    candidatesFrom none (s ++ char '-' :: t) = candidatesFrom none t := by
  by_cases h0 : s = []
  · rw [h0]
    exact candidatesFrom_hyphen t
  · have hl : length none (s ++ char '-' :: t) = 0 := by
      rw [length_name h]
      obtain ⟨u, v, rfl, hu, hv⟩ := exists_run isAlpha s
      cases v with
      | nil =>
        rw [List.append_nil]
        exact wordLength_unfinished hu (by decide)
      | cons d v =>
        have hd : d ∈ nameChars := h d (by simp)
        rw [List.append_assoc]
        exact wordLength_unfinished hu ⟨hv d rfl, (classes_of_mem_nameChars d hd).2.2.2.1⟩
    obtain ⟨d, -, hd⟩ := candidatesFrom_of_length h hs h0 hl
    rw [hd, candidatesFrom_hyphen]

theorem candidatesFrom_unhyphened (h : IsName s) (hs : char '-' ∉ s) :
    candidatesFrom none s = [s].filter isLetters := by
  by_cases h0 : s = []
  · rw [h0, candidatesFrom_nil]
    rfl
  · by_cases ha : ∀ c ∈ s, isAlpha c = true
    · rw [(IsSpelling.word s ha h0).candidatesFrom_eq, List.filter_cons_of_pos (isLetters_iff.mpr ⟨h0, ha⟩)]
      rfl
    · have hl : length none (s ++ []) = 0 := by
        rw [List.append_nil, length_name h]
        obtain ⟨u, v, rfl, hu, hv⟩ := exists_run isAlpha s
        cases v with
        | nil => exact absurd (by rwa [List.append_nil]) ha
        | cons d v =>
          exact wordLength_unfinished hu ⟨hv d rfl, (classes_of_mem_nameChars d (h d (by simp))).2.2.2.1⟩
      obtain ⟨d, -, hd⟩ := candidatesFrom_of_length (by rwa [List.append_nil]) hs h0 hl
      rw [List.append_nil, candidatesFrom_nil] at hd
      rw [hd, List.filter_cons_of_neg fun hf => ha (isLetters_iff.mp hf).2]
      rfl

theorem candidatesFrom_name (h : IsName s) : candidatesFrom none s = [afterHyphen s].filter isLetters := by
  induction s using split_induction (char '-') with
  | single s hs => rw [candidatesFrom_unhyphened h hs, afterHyphen_of_not_mem hs]
  | cut s t hs ih =>
    have ht : IsName t := (List.forall_mem_cons.mp h.of_append.2).2
    rw [candidatesFrom_before_hyphen h hs, ih ht, afterHyphen_append hs]

theorem candidatesFrom_split (hc : c ∈ separators) (hs : char '(' ∉ s) :
    candidatesFrom none s = (split c s).flatMap (candidatesFrom none) := by
  induction s using split_induction c with
  | single s h => rw [split_eq_singleton h, List.flatMap_singleton]
  | cut s t h ih =>
    have hround : char '(' ∉ s ∧ char '(' ∉ t := by
      simp only [List.mem_append, List.mem_cons, not_or] at hs
      exact ⟨hs.1, hs.2.2⟩
    rw [candidatesFrom_separated hc (isClosed_of_not_mem hround.1), split_append h, List.flatMap_cons, ih hround.2]

theorem candidatesFrom_address (h : IsAddress s) : candidatesFrom none s = addressWords s := by
  have hclasses : ∀ c ∈ nameChars ++ [char '.', char '/'], c ≠ char '(' ∧ (c ≠ char '.' → c ≠ char '/' → c ∈ nameChars) := by
    decide
  have hround {part : Text} (hpart : ∀ c ∈ part, c ∈ s) : char '(' ∉ part := fun hm =>
    (hclasses _ (h _ (hpart _ hm))).1 rfl
  have hname : ∀ part ∈ split (char '/') s, ∀ name ∈ split (char '.') part, IsName name := by
    intro part hp name hn c hc
    refine (hclasses c (h c (mem_of_mem_split hp (mem_of_mem_split hn hc)))).2 ?_ ?_
    · rintro rfl
      exact not_mem_of_mem_split hn hc
    · rintro rfl
      exact not_mem_of_mem_split hp (mem_of_mem_split hn hc)
  rw [candidatesFrom_split (c := char '/') (by decide) (hround fun _ => id), addressWords, List.map_eq_flatMap,
    List.filter_flatMap, List.flatMap_assoc]
  refine List.flatMap_congr fun part hp => ?_
  rw [candidatesFrom_split (c := char '.') (by decide) (hround fun _ => mem_of_mem_split hp)]
  exact List.flatMap_congr fun name hn => candidatesFrom_name (hname part hp name hn)

def url (s : Text) : Text := "url(" ++ s ++ [char ')']

theorem candidatesFrom_url (h : IsAddress s) : candidatesFrom none (url s) = ofString "url" :: addressWords s := by
  have hround : char '(' ∉ s := fun hm =>
    absurd (h _ hm) (show char '(' ∉ nameChars ++ [char '.', char '/'] from by decide)
  have happ : url s = ofString "url" ++ char '(' :: (s ++ [char ')']) := rfl
  have hf : functionLength (url s) = 0 ∧ hashLength (url s) = 0 := ⟨rfl, rfl⟩
  have hl : length none (url s) = (ofString "url").length := by
    rw [length, hf.1, hf.2, happ]
    exact wordLength_append (by decide) (by rintro c ⟨⟩; decide)
  have hskip : length (ofString "url").getLast? (char '(' :: (s ++ [char ')'])) = 0 := length_cons rfl rfl (by decide)
  rw [happ] at hl ⊢
  rw [candidatesFrom_append (by decide) hl, candidatesFrom_skip hskip, candidatesFrom_some (by decide),
    candidatesFrom_separated (by decide) (isClosed_of_not_mem hround), candidatesFrom_address h, candidatesFrom_nil,
    List.append_nil]

def digitsAhead (s : Text) : ℕ := digitsTaken (s.takeWhile isHex).length

def hashWords (s : Text) : List Text :=
  if digitsAhead s = 0 then [s].filter isLetters else [char '#' :: s.take (digitsAhead s)]

theorem take_digitsAhead (s : Text) : (∀ c ∈ s.take (digitsAhead s), isHex c = true) ∧
    (s.take (digitsAhead s)).length = digitsAhead s ∧ digitsTaken (digitsAhead s) = digitsAhead s := by
  obtain ⟨u, v, rfl, hu, hv⟩ := exists_run isHex s
  have ha : digitsAhead (u ++ v) = digitsTaken u.length := by
    rw [digitsAhead, takeWhile_append_of_head? hu hv]
  have hle : digitsTaken u.length ≤ u.length := (digitsTaken_cases u.length).1
  rw [ha, List.take_append_of_le_length hle]
  exact ⟨fun c hc => hu c (List.mem_of_mem_take hc), List.length_take_of_le hle, digitsTaken_digitsTaken u.length⟩

theorem take_digitsAhead_ne_nil (h0 : digitsAhead s ≠ 0) : s.take (digitsAhead s) ≠ [] := by
  rwa [← List.length_pos_iff, (take_digitsAhead s).2.1, Nat.pos_iff_ne_zero]

theorem exists_getLast?_hash (h0 : s ≠ []) (h : ∀ c ∈ s, isWord c = true) :
    ∃ c, (char '#' :: s).getLast? = some c ∧ isWord c = true := by
  obtain ⟨t, c, rfl⟩ := (List.eq_nil_or_concat s).resolve_left h0
  rw [List.concat_eq_append] at h ⊢
  exact ⟨c, by rw [← List.cons_append, List.getLast?_concat], h c (List.mem_append_right t List.mem_cons_self)⟩

theorem candidatesFrom_hash (h : IsName s) (hs : char '-' ∉ s) : candidatesFrom none (char '#' :: s) = hashWords s := by
  have hash : hashLength (char '#' :: s) = if digitsAhead s = 0 then 0 else digitsAhead s + 1 := hashLength_cons s
  by_cases h0 : digitsAhead s = 0
  · rw [if_pos h0] at hash
    rw [hashWords, if_pos h0, candidatesFrom_skip (length_cons rfl hash (by decide)), candidatesFrom_some (by decide),
      candidatesFrom_unhyphened h hs]
  · rw [if_neg h0] at hash
    have hlength := (take_digitsAhead s).2.1
    have hl : length none (char '#' :: s.take (digitsAhead s) ++ s.drop (digitsAhead s)) =
        (char '#' :: s.take (digitsAhead s)).length := by
      have hf : functionLength (char '#' :: s) = 0 := rfl
      rw [List.cons_append, List.take_append_drop, length_eq, hf, hash, List.length_cons, hlength]
      rfl
    have hcut := candidatesFrom_append (List.cons_ne_nil _ _) hl
    rw [List.cons_append, List.take_append_drop] at hcut
    rw [hcut, hashWords, if_neg h0]
    obtain ⟨c, hlast, hc⟩ := exists_getLast?_hash (take_digitsAhead_ne_nil h0) fun c hc => h.isWord hs c (List.mem_of_mem_take hc)
    have hdrop : IsName (s.drop (digitsAhead s) ++ []) := by
      rw [List.append_nil]
      exact fun c hc => h c (List.mem_of_mem_drop hc)
    obtain ⟨d, -, hd⟩ := candidatesFrom_inside hc hdrop fun hm => hs (List.mem_of_mem_drop hm)
    rw [List.append_nil, candidatesFrom_nil] at hd
    rw [hlast, hd]

end Candidate

namespace Color

open Candidate Css

theorem lower_strip_name (h : ∀ c ∈ s, c ∈ char '#' :: nameChars) : lower (strip s) = s := by
  have hclasses : ∀ c ∈ char '#' :: nameChars, isAscii c = true ∧ c.toLower = c ∧ isBlank c = false := by decide
  have hstripped : IsStripped s :=
    ⟨fun c hc => (hclasses c (h c (List.mem_of_mem_head? hc))).2.2,
      fun c hc => (hclasses c (h c (List.mem_of_mem_getLast? hc))).2.2⟩
  rw [strip_of_isStripped hstripped, lower_of_isAscii fun c hc => (hclasses c (h c hc)).1]
  exact (List.map_congr_left fun c hc => (hclasses c (h c hc)).2.1).trans (List.map_id _)

theorem ofKeyword_of_hyphen (h : char '-' ∈ s) : ofKeyword s = none := by
  have hkeys : ∀ e ∈ rebeccaPurple :: codes, '-' ∉ e.1.toList := by decide +kernel
  rw [ofKeyword, Option.map_eq_none_iff, List.lookup_eq_none_iff]
  intro e he
  rw [bne_iff_ne]
  intro hs
  refine hkeys e he ?_
  rw [← hs, asString, String.toList_ofList]
  exact List.mem_map_of_mem (f := CodePoint.toChar) h

theorem normalize_of_hyphen (h : IsName s) (hm : char '-' ∈ s) : normalize s = .ok none := by
  have hs : lower (strip s) = s := lower_strip_name fun c hc => List.mem_cons_of_mem _ (h c hc)
  have hmark : (startsWith [char '#'] s || s.contains '(') = false := unmarked fun c hc =>
    ⟨(classes_of_mem_nameChars c (h c hc)).2.1, (classes_of_mem_nameChars c (h c hc)).1⟩
  have hnamed : named s = none := by
    rw [named, hs, ofKeyword_of_hyphen hm]
    split <;> rfl
  have htransparent : s ≠ "transparent" := by
    rintro rfl
    exact absurd hm (by decide)
  have hread : read s = .ok none := by
    rw [read, hs, if_neg (List.ne_nil_of_mem hm), hmark, if_neg Bool.false_ne_true, if_neg htransparent, hnamed]
    rfl
  rw [normalize, hread]
  rfl

theorem hexShade_eq_some {x : Shade} (h : hexShade s = some x) :
    (∀ c ∈ s, isHex c = true) ∧ digitsTaken s.length = s.length := by
  unfold hexShade at h
  split at h
  · next hall =>
    refine ⟨List.all_eq_true.mp hall, ?_⟩
    split at h
    · rfl
    · rfl
    · rfl
    · rfl
    · cases h
  · cases h

theorem lexemesFrom_hash_name {p : Position} (h : IsName s) (h0 : s ≠ []) :
    lexemesFrom p (char '#' :: s) = [(p, .token (.hash s (startsIdentifier s)))] := by
  have hchars : ∀ c ∈ s, isNameChar c = true := fun c hc =>
    (show ∀ c ∈ nameChars, isNameChar c = true from by decide) c (h c hc)
  have hname : readName (s ++ []) = ⟨s, s.length, []⟩ := readName_append hchars (by simp)
  have hhead : s.head?.any isNameChar = true := by
    obtain ⟨c, t, rfl⟩ := List.exists_cons_of_ne_nil h0
    exact hchars c List.mem_cons_self
  rw [List.append_nil] at hname
  rw [lexemesFrom_cons, nextLexemes_hash]
  unfold readMark
  rw [if_neg (by simp), if_pos ⟨rfl, by simp [hhead]⟩, hname]
  dsimp only [Read.map, Read.widen]
  rw [lexemesFrom_nil]
  rfl

theorem shade_hash (h : IsName s) (h0 : s ≠ []) : shade (char '#' :: s) = .ok (hexShade s) := by
  have hclasses : ∀ c ∈ char '#' :: nameChars, c ≠ '\r' ∧ c ≠ '\x0c' ∧ c ≠ '\x00' := by decide
  have hclean : clean (char '#' :: s) = char '#' :: s := clean_of_forall fun c hc => hclasses c (h.mem_hash c hc)
  have hlast : s.getLast? ≠ some '\n' := fun hl =>
    absurd (h _ (List.mem_of_getLast? hl)) (by decide)
  have hread : Node.read (char '#' :: s) = [.token .start (.hash s (startsIdentifier s))] := by
    rw [Node.read, lexemes, hclean, lexemesFrom_hash_name h h0]
    rfl
  rw [shade, hread]
  exact congrArg Except.ok (if_neg hlast)

theorem normalize_hash (h : IsName s) (h0 : s ≠ []) :
    normalize (char '#' :: s) = .ok (((hexShade s).bind Shade.rgba?).map Rgba.text) := by
  have hs : lower (strip (char '#' :: s)) = char '#' :: s := lower_strip_name h.mem_hash
  have hmark : (startsWith [char '#'] (char '#' :: s) || (char '#' :: s).contains '(') = true := rfl
  rw [normalize, read, hs, if_neg (List.cons_ne_nil _ _), if_pos hmark, shade_hash h h0]
  rfl

theorem rgba?_ofBytes {r g b a : ℕ} (hr : r ≤ 255) (hg : g ≤ 255) (hb : b ≤ 255) (ha : a ≤ 255) :
    ∃ c, (Shade.ofBytes r g b a).rgba? = some c := by
  have hfinite : (byteFraction a).isFinite = true := by
    have hchannel : toChannel (byteFraction a) = some (a : ℤ) := toChannel_byte ha
    by_contra hn
    rw [toChannel, if_neg hn] at hchannel
    cases hchannel
  have hred : toChannel (byteFraction r) = some (r : ℤ) := toChannel_byte hr
  have hgreen : toChannel (byteFraction g) = some (g : ℤ) := toChannel_byte hg
  have hblue : toChannel (byteFraction b) = some (b : ℤ) := toChannel_byte hb
  simp [Shade.rgba?, Shade.ofBytes, hred, hgreen, hblue, hfinite]

theorem hexPair_le (hc : c ∈ nameChars) (hd : d ∈ nameChars) : hexPair c d ≤ 255 := by
  have hdigit : ∀ c ∈ nameChars, (hexDigit c).getD 0 ≤ 15 := by decide
  have hpair : hexPair c d = (0 * 16 + (hexDigit c).getD 0) * 16 + (hexDigit d).getD 0 := rfl
  have := hdigit c hc
  have := hdigit d hd
  omega

theorem exists_hexShade (h : IsName s) (hx : ∀ c ∈ s, isHex c = true) (h0 : s ≠ [])
    (hn : digitsTaken s.length = s.length) :
    ∃ r g b a, hexShade s = some (.ofBytes r g b a) ∧ r ≤ 255 ∧ g ≤ 255 ∧ b ≤ 255 ∧ a ≤ 255 := by
  have hpair {c d : CodePoint} (hc : c ∈ s) (hd : d ∈ s) : hexPair c d ≤ 255 := hexPair_le (h c hc) (h d hd)
  unfold hexShade
  rw [if_pos (List.all_eq_true.mpr hx)]
  split
  · exact ⟨_, _, _, _, rfl, hpair (by simp) (by simp), hpair (by simp) (by simp), hpair (by simp) (by simp), le_rfl⟩
  · exact ⟨_, _, _, _, rfl, hpair (by simp) (by simp), hpair (by simp) (by simp), hpair (by simp) (by simp),
      hpair (by simp) (by simp)⟩
  · exact ⟨_, _, _, _, rfl, hpair (by simp) (by simp), hpair (by simp) (by simp), hpair (by simp) (by simp), le_rfl⟩
  · exact ⟨_, _, _, _, rfl, hpair (by simp) (by simp), hpair (by simp) (by simp), hpair (by simp) (by simp),
      hpair (by simp) (by simp)⟩
  · next h3 h4 h6 h8 =>
    have hlen : s.length ∈ [0, 3, 4, 6, 8] := hn ▸ (digitsTaken_cases s.length).2
    rcases s with _ | ⟨a, _ | ⟨b, _ | ⟨c, _ | ⟨d, _ | ⟨e, _ | ⟨f, _ | ⟨g, _ | ⟨i, _ | ⟨j, s⟩⟩⟩⟩⟩⟩⟩⟩⟩
    all_goals first
      | exact absurd rfl h0
      | exact (h3 _ _ _ rfl).elim
      | exact (h4 _ _ _ _ rfl).elim
      | exact (h6 _ _ _ _ _ _ rfl).elim
      | exact (h8 _ _ _ _ _ _ _ _ rfl).elim
      | simp at hlen

theorem exists_normalize_hash (h : IsName s) (hx : ∀ c ∈ s, isHex c = true) (h0 : s ≠ [])
    (hn : digitsTaken s.length = s.length) : ∃ color, normalize (char '#' :: s) = .ok (some color) := by
  obtain ⟨r, g, b, a, hs, hr, hg, hb, ha⟩ := exists_hexShade h hx h0 hn
  obtain ⟨color, hcolor⟩ := rgba?_ofBytes hr hg hb ha
  refine ⟨color.text, ?_⟩
  rw [normalize_hash h h0, hs, Option.bind_some, hcolor]
  rfl

theorem digitsAhead_of_normalize (h : IsName s) (h0 : s ≠ []) (hc : normalize (char '#' :: s) = .ok (some t)) :
    digitsAhead s = s.length := by
  rw [normalize_hash h h0] at hc
  obtain ⟨color, hcolor, -⟩ := Option.map_eq_some_iff.mp (Except.ok.inj hc)
  obtain ⟨x, hx, -⟩ := Option.bind_eq_some_iff.mp hcolor
  obtain ⟨hhex, hn⟩ := hexShade_eq_some hx
  rw [digitsAhead, List.takeWhile_eq_self_iff.mpr hhex, hn]

theorem normalize_of_digitsAhead (h : IsName s) (h0 : s ≠ []) (hn : digitsAhead s ≠ s.length) :
    normalize (char '#' :: s) = .ok none := by
  cases hc : ((hexShade s).bind Shade.rgba?).map Rgba.text with
  | none => rw [normalize_hash h h0, hc]
  | some color => exact absurd (digitsAhead_of_normalize h h0 (by rw [normalize_hash h h0, hc])) hn

theorem exists_normalize_take (h : IsName s) (h0 : digitsAhead s ≠ 0) :
    ∃ color, normalize (char '#' :: s.take (digitsAhead s)) = .ok (some color) := by
  obtain ⟨hx, hl, hn⟩ := take_digitsAhead s
  exact exists_normalize_hash (fun c hc => h c (List.mem_of_mem_take hc)) hx (take_digitsAhead_ne_nil h0)
    (by rw [hl, hn])

inductive BeginsUrl : Lexeme → Prop where
  | function : BeginsUrl (.opensFunction "url")
  | url (text : Text) (closed : Bool) : BeginsUrl (.token (.url text closed))
  | broken : BeginsUrl (.token (.fault .brokenUrl))

theorem BeginsUrl.begins {l : Lexeme} (h : BeginsUrl l) : Begins l := by
  cases h with
  | function => exact ⟨nofun, nofun, fun name hn => by cases hn; decide⟩
  | url text closed => exact ⟨nofun, nofun, nofun⟩
  | broken => exact ⟨nofun, nofun, nofun⟩

theorem functionShade_url (space : Option Node) (arguments : List Node) :
    functionShade "url" space arguments = none := by
  have hchannels (a : Arguments) : functionChannels "url" space a = none := rfl
  simp [functionShade, hchannels]

theorem BeginsUrl.nodeShade {l : Lexeme} {n : Node} {p : Position} (hl : BeginsUrl l) (h : n.beginning = (p, l)) :
    Color.nodeShade n = .ok none := by
  cases n with
  | token q t =>
    obtain rfl : .token t = l := (Prod.mk.inj h).2
    cases hl with
    | url text closed => rfl
    | broken => rfl
  | function q name arguments closed =>
    obtain rfl : .opensFunction name = l := (Prod.mk.inj h).2
    cases hl with
    | function => exact congrArg Except.ok (functionShade_url none _)
  | block q b content closed => rfl

theorem lexemesFrom_url (p : Position) (s : Text) :
    ∃ l ls, lexemesFrom p ("url(" ++ s) = (p, l) :: ls ∧ BeginsUrl l := by
  have hname : readName (ofString "url" ++ char '(' :: s) = ⟨ofString "url", 3, char '(' :: s⟩ :=
    readName_append (by decide) (by rintro c ⟨⟩; decide)
  have hr : startsRange (char 'u' :: (ofString "rl(" ++ s)) = false := rfl
  have hi : startsIdentifier (char 'u' :: (ofString "rl(" ++ s)) = true := rfl
  have hnext : nextLexemes 'u' (ofString "rl(" ++ s) = (readAfterName (ofString "url") (char '(' :: s)).widen 3 := by
    rw [nextLexemes, if_neg (by decide), if_neg (by simp [hr]), if_neg (by simp), if_pos hi]
    exact congrArg (fun name : Read Text => (readAfterName name.value name.rest).widen name.width) hname
  have hafter : ∃ l ls, (readAfterName (ofString "url") (char '(' :: s)).value = l :: ls ∧ BeginsUrl l := by
    rw [readAfterName]
    split
    · change ∃ l ls, urlLexemes (readUrl s).value = l :: ls ∧ BeginsUrl l
      rw [urlLexemes]
      split
      · exact ⟨_, _, rfl, .broken⟩
      · split
        · exact ⟨_, _, rfl, .url _ _⟩
        · exact ⟨_, _, rfl, .url _ _⟩
    · exact ⟨_, _, rfl, .function⟩
  obtain ⟨l, ls, hl, hb⟩ := hafter
  have hlex : lexemesFrom p ("url(" ++ s) = _ := lexemesFrom_cons p 'u' (ofString "rl(" ++ s)
  rw [hnext, Read.widen, hl] at hlex
  exact ⟨l, _, hlex, hb⟩

theorem normalize_url (s : Text) : normalize ("url(" ++ s) = .ok none := by
  have hhead : IsHead "url(" := ⟨by decide, by decide, ⟨_, _, rfl, by decide⟩, ⟨_, rfl, by decide⟩, fun _ => rfl⟩
  obtain ⟨r, hr⟩ := hhead.exists_prepared s
  obtain ⟨l, ls, hls, hl⟩ := lexemesFrom_url .start (clean r)
  rw [← hhead.clean] at hls
  have hshade : shade ("url(" ++ r) = .ok none := by
    rcases shade_of_begins hls hl.begins with hnone | ⟨n, hbegin, hn⟩
    · exact hnone
    · rw [hn, hl.nodeShade hbegin]
  have hread : read ("url(" ++ s) = .ok none := by
    have h0 : ofString "url(" ++ r ≠ [] := List.cons_ne_nil _ _
    have hmark : (startsWith [char '#'] (ofString "url(" ++ r) || (ofString "url(" ++ r).contains '(') = true := rfl
    rw [read, hr, if_neg h0, if_pos hmark, hshade]
    rfl
  rw [normalize, hread]
  rfl

end Color

end ColorCensus
