import ColorCensus.Css.Token
import ColorCensus.Number.Decimal
import ColorCensus.Text.Case.Lower
import ColorCensus.Text.Newline

namespace ColorCensus.Css

open Text Decimal

def skipComment : Text → Read Unit
  | '*' :: '/' :: s => ⟨(), 2, s⟩
  | _ :: s => (skipComment s).widen 1
  | [] => ⟨(), 0, []⟩

theorem skipComment_spans (s : Text) : (skipComment s).Spans s := by
  fun_induction skipComment s with
  | case1 s =>
    simp only [Read.Spans, List.length_cons]
    omega
  | case2 c s _ ih => exact ih.widen rfl
  | case3 => rfl

inductive StringEnd where
  | closed
  | broken
  | unfinished
  deriving DecidableEq, Repr

structure StringValue where
  text : Text
  ending : StringEnd
  deriving DecidableEq, Repr

def StringValue.cons (c : CodePoint) (v : StringValue) : StringValue := { v with text := c :: v.text }

def readString (quote : CodePoint) : Text → Read StringValue
  | [] => ⟨⟨[], .unfinished⟩, 0, []⟩
  | c :: s =>
    if c = quote then ⟨⟨[], .closed⟩, 1, s⟩
    else if c = '\\' then
      match s with
      | [] => ⟨⟨[], .unfinished⟩, 1, []⟩
      | d :: t =>
        if d = '\n' then (readString quote t).widen 2
        else
          let escape := readEscape (d :: t)
          have := (readEscape_spans (d :: t)).rest_length_le
          ((readString quote escape.rest).widen (1 + escape.width)).map (.cons escape.value)
    else if c = '\n' then ⟨⟨[], .broken⟩, 0, c :: s⟩
    else ((readString quote s).widen 1).map (.cons c)
termination_by s => s.length
decreasing_by all_goals simp_all only [List.length_cons]; omega

theorem readString_spans (quote : CodePoint) (s : Text) : (readString quote s).Spans s := by
  fun_induction readString quote s with
  | case1 => rfl
  | case2 s =>
    simp only [Read.Spans, List.length_cons]
    omega
  | case3 => rfl
  | case4 t _ ih => exact ih.widen rfl
  | case5 d t _ escape _ _ ih =>
    refine (ih.widen ?_).map _
    have h : escape.Spans (d :: t) := readEscape_spans (d :: t)
    simp only [Read.Spans, List.length_cons] at h ⊢
    omega
  | case6 s => simp [Read.Spans]
  | case7 c s _ _ _ ih => exact (ih.widen rfl).map _

def endsUrl (c : CodePoint) : Bool :=
  c == '"' || c == '\'' || c == '(' || c == '\x0b' || c == '\x7f' || decide (c.toNat ≤ 8) ||
    decide (14 ≤ c.toNat ∧ c.toNat ≤ 31)

structure UrlValue where
  text : Option Text
  closed : Bool
  deriving DecidableEq, Repr

def UrlValue.broken : UrlValue := ⟨none, true⟩

def UrlValue.cons (c : CodePoint) (v : UrlValue) : UrlValue := { v with text := v.text.map (c :: ·) }

def skipUrl : Text → Read Unit
  | '\\' :: ')' :: s => (skipUrl s).widen 2
  | c :: s => if c = ')' then ⟨(), 1, s⟩ else (skipUrl s).widen 1
  | [] => ⟨(), 0, []⟩

theorem skipUrl_spans (s : Text) : (skipUrl s).Spans s := by
  fun_induction skipUrl s with
  | case1 s ih => exact ih.widen rfl
  | case2 c s =>
    simp only [Read.Spans, List.length_cons]
    omega
  | case3 c s _ _ ih => exact ih.widen rfl
  | case4 => rfl

def closeUrl : Text → Read UrlValue
  | [] => ⟨⟨some [], false⟩, 0, []⟩
  | c :: s =>
    if c = ')' then ⟨⟨some [], true⟩, 1, s⟩ else (skipUrl (c :: s)).map fun _ => .broken

theorem closeUrl_spans (s : Text) : (closeUrl s).Spans s := by
  unfold closeUrl
  split
  · rfl
  · split
    · simp only [Read.Spans, List.length_cons]
      omega
    · exact (skipUrl_spans _).map _

def pastSpace (read : Text → Read α) (s : Text) : Read α :=
  (read (s.dropWhile isSpace)).widen (s.takeWhile isSpace).length

theorem pastSpace_spans {read : Text → Read α} (h : ∀ t, (read t).Spans t) (s : Text) :
    (pastSpace read s).Spans s := by
  refine (h _).widen ?_
  have hs := Read.runAll_spans isSpace s
  simp only [Read.Spans, Read.runAll] at hs
  omega

def readUrlFrom : Text → Read UrlValue
  | [] => ⟨⟨some [], false⟩, 0, []⟩
  | c :: s =>
    if c = ')' then ⟨⟨some [], true⟩, 1, s⟩
    else if isSpace c then (pastSpace closeUrl s).widen 1
    else if c = '\\' ∧ startsLine s = false then
      let escape := readEscape s
      have := (readEscape_spans s).rest_length_le
      ((readUrlFrom escape.rest).widen (1 + escape.width)).map (.cons escape.value)
    else if endsUrl c then ((skipUrl s).widen 1).map fun _ => .broken
    else ((readUrlFrom s).widen 1).map (.cons c)
termination_by s => s.length
decreasing_by all_goals simp_all only [List.length_cons]; omega

theorem readUrlFrom_spans (s : Text) : (readUrlFrom s).Spans s := by
  fun_induction readUrlFrom s with
  | case1 => rfl
  | case2 s =>
    simp only [Read.Spans, List.length_cons]
    omega
  | case3 c s => exact (pastSpace_spans closeUrl_spans s).widen rfl
  | case4 c s _ _ _ escape _ ih =>
    refine (ih.widen ?_).map _
    have h : escape.Spans s := readEscape_spans s
    simp only [Read.Spans, List.length_cons] at h ⊢
    omega
  | case5 c s => exact ((skipUrl_spans s).widen rfl).map _
  | case6 c s _ _ _ _ ih => exact (ih.widen rfl).map _

def readUrl (s : Text) : Read UrlValue := pastSpace readUrlFrom s

theorem readUrl_spans (s : Text) : (readUrl s).Spans s := pastSpace_spans readUrlFrom_spans s

def quoteAhead (s : Text) : Bool :=
  match s.dropWhile isSpace with
  | c :: _ => c == '"' || c == '\''
  | [] => false

def startsRange : Text → Bool
  | c :: '+' :: d :: _ => (c == 'u' || c == 'U') && (isHex d || d == '?')
  | _ => false

def readRangeEnd (first s : Text) : Read Token :=
  match s with
  | '-' :: d :: t =>
    if isHex d then
      ((Read.run 6 isHex (d :: t)).widen 1).map fun last =>
        .unicodeRange (ofHex first) (ofHex last)
    else ⟨.unicodeRange (ofHex first) (ofHex first), 0, s⟩
  | _ => ⟨.unicodeRange (ofHex first) (ofHex first), 0, s⟩

theorem readRangeEnd_spans (first s : Text) : (readRangeEnd first s).Spans s := by
  unfold readRangeEnd
  split
  · split
    · exact ((Read.run_spans ..).widen rfl).map _
    · simp [Read.Spans]
  · simp [Read.Spans]

def readRange (s : Text) : Read Token :=
  let first := Read.run 6 isHex s
  let marks := Read.run (6 - first.width) (· == '?') first.rest
  if marks.value = [] then (readRangeEnd first.value first.rest).widen first.width
  else
    (marks.widen first.width).map fun marks =>
      .unicodeRange (ofHex (first.value ++ marks.map fun _ => '0'))
        (ofHex (first.value ++ marks.map fun _ => 'F'))

theorem readRange_spans (s : Text) : (readRange s).Spans s := by
  have h : s.length = (Read.run 6 isHex s).rest.length + (Read.run 6 isHex s).width := by
    have hs := Read.run_spans 6 isHex s
    simp only [Read.Spans] at hs
    omega
  unfold readRange
  dsimp only
  split
  · exact (readRangeEnd_spans ..).widen h
  · exact ((Read.run_spans ..).widen h).map _

def urlLexemes (v : UrlValue) : List Lexeme :=
  match v.text with
  | none => [.token (.fault .brokenUrl)]
  | some text =>
    if v.closed then [.token (.url text true)]
    else [.token (.url text false), .token (.fault .unfinishedUrl)]

def readAfterName (name s : Text) : Read (List Lexeme) :=
  match s with
  | '(' :: t =>
    if asciiLower name = "url" ∧ quoteAhead t = false then
      ((readUrl t).widen 1).map urlLexemes
    else ⟨[.opensFunction name], 1, t⟩
  | _ => ⟨[.token (.ident name)], 0, s⟩

theorem readAfterName_spans (name s : Text) : (readAfterName name s).Spans s := by
  unfold readAfterName
  split
  · split
    · exact ((readUrl_spans _).widen rfl).map _
    · simp only [Read.Spans, List.length_cons]
      omega
  · simp [Read.Spans]

def readIdentLike (s : Text) : Read (List Lexeme) :=
  let name := readName s
  (readAfterName name.value name.rest).widen name.width

theorem readIdentLike_spans (s : Text) : (readIdentLike s).Spans s := by
  refine (readAfterName_spans _ _).widen ?_
  have h := readName_spans s
  simp only [Read.Spans] at h
  omega

def readUnit (text s : Text) : Read Token :=
  if startsIdentifier s then (readName s).map (.dimension text)
  else
    match s with
    | '%' :: t => ⟨.percentage text, 1, t⟩
    | _ => ⟨.number text, 0, s⟩

theorem readUnit_spans (text s : Text) : (readUnit text s).Spans s := by
  unfold readUnit
  split
  · exact (readName_spans s).map _
  · split
    · simp only [Read.Spans, List.length_cons]
      omega
    · simp [Read.Spans]

def stringLexemes (v : StringValue) : List Lexeme :=
  match v.ending with
  | .closed => [.token (.string v.text true)]
  | .broken => [.token (.fault .brokenString)]
  | .unfinished => [.token (.string v.text false), .token (.fault .unfinishedString)]

def mark (more : Nat) (text s : Text) : Read (List Lexeme) :=
  ⟨[.token (.delimiter text)], (s.take more).length, s.drop more⟩

theorem mark_spans (more : Nat) (text s : Text) : (mark more text s).Spans s := by
  simp only [Read.Spans, mark, List.length_take, List.length_drop]
  omega

def readMark (c : CodePoint) (s : Text) : Read (List Lexeme) :=
  if c = '@' ∧ startsIdentifier s then (readName s).map fun name => [.token (.atKeyword name)]
  else if c = '#' ∧ ((s.head?.any isNameChar) || startsEscape s) then
    (readName s).map fun name => [.token (.hash name (startsIdentifier s))]
  else if c = '"' ∨ c = '\'' then (readString c s).map stringLexemes
  else if c = '/' then
    match s with
    | '*' :: t => ((skipComment t).widen 1).map fun _ => []
    | _ => mark 0 [c] s
  else if c = '<' ∧ startsWith "!--" s then mark 3 "<!--" s
  else if c = '|' ∧ s.head? = some '|' then mark 1 "||" s
  else if (['~', '|', '^', '$', '*'] : Text).contains c ∧ s.head? = some '=' then mark 1 [c, '='] s
  else mark 0 [c] s

theorem readMark_spans (c : CodePoint) (s : Text) : (readMark c s).Spans s := by
  unfold readMark
  split
  · exact (readName_spans s).map _
  · split
    · exact (readName_spans s).map _
    · split
      · exact (readString_spans c s).map _
      · split
        · split
          · exact ((skipComment_spans _).widen rfl).map _
          · exact mark_spans ..
        · split
          · exact mark_spans ..
          · split
            · exact mark_spans ..
            · split
              · exact mark_spans ..
              · exact mark_spans ..

def nextLexemes (c : CodePoint) (s : Text) : Read (List Lexeme) :=
  if isSpace c then ((Read.runAll isSpace s).widen 1).map fun space => [.token (.space (c :: space))]
  else if startsRange (c :: s) then
    ((readRange (s.drop 1)).widen (1 + (s.take 1).length)).map fun t => [.token t]
  else if c = '-' ∧ startsWith "->" s then (mark 2 "-->" s).widen 1
  else if startsIdentifier (c :: s) then readIdentLike (c :: s)
  else
    match literalLength (c :: s) with
    | n + 1 =>
      ((readUnit (c :: s.take n) (s.drop n)).widen (1 + (s.take n).length)).map fun t => [.token t]
    | 0 =>
      match Bracket.opened? c, Bracket.closed? c with
      | some b, _ => ⟨[.opens b], 1, s⟩
      | none, some b => ⟨[.closes b], 1, s⟩
      | none, none => (readMark c s).widen 1

theorem nextLexemes_spans (c : CodePoint) (s : Text) : (nextLexemes c s).Spans (c :: s) := by
  unfold nextLexemes
  split
  · exact ((Read.runAll_spans ..).widen rfl).map _
  · split
    · refine ((readRange_spans _).widen ?_).map _
      simp only [List.length_take, List.length_drop, List.length_cons]
      omega
    · split
      · exact (mark_spans ..).widen rfl
      · split
        · exact readIdentLike_spans _
        · split
          · refine ((readUnit_spans ..).widen ?_).map _
            simp only [List.length_take, List.length_drop, List.length_cons]
            omega
          · split
            · simp only [Read.Spans, List.length_cons]
              omega
            · simp only [Read.Spans, List.length_cons]
              omega
            · exact (readMark_spans c s).widen rfl

theorem nextLexemes_width_ne_zero (c : CodePoint) (s : Text) : (nextLexemes c s).width ≠ 0 := by
  unfold nextLexemes
  split
  · simp [Read.map, Read.widen]
  · split
    · simp only [Read.map, Read.widen]
      omega
    · split
      · simp [Read.widen]
      · split
        · next h =>
          have hw := readName_width_ne_zero h
          simp only [readIdentLike, Read.widen]
          omega
        · split
          · simp only [Read.map, Read.widen]
            omega
          · split <;> simp [Read.widen]

def clean : Text → Text
  | [] => []
  | '\r' :: '\n' :: s => '\n' :: clean s
  | c :: s =>
    (if c = '\r' ∨ c = '\x0c' then '\n' else if c = '\x00' then '\ufffd' else c) :: clean s

theorem clean_nil : clean [] = [] := rfl

theorem clean_of_forall {s : Text} (h : ∀ c ∈ s, c ≠ '\r' ∧ c ≠ '\x0c' ∧ c ≠ '\x00') :
    clean s = s := by
  fun_induction clean s with
  | case1 => rfl
  | case2 s ih => exact absurd rfl (h '\r' (by simp)).1
  | case3 c s _ ih =>
    obtain ⟨hr, hf, hz⟩ := h c (by simp)
    rw [if_neg (by simp [hr, hf]), if_neg hz, ih fun d hd => h d (by simp [hd])]

def lexemesFrom (p : Position) : Text → List (Position × Lexeme)
  | [] => []
  | c :: s =>
    let next := nextLexemes c s
    next.value.map (fun l => (p, l)) ++
      lexemesFrom (p.after ((c :: s).take next.width)) next.rest
termination_by s => s.length
decreasing_by exact (nextLexemes_spans c s).rest_length_lt (nextLexemes_width_ne_zero c s)

def lexemes (s : Text) : List (Position × Lexeme) := lexemesFrom .start (clean s)

theorem lexemesFrom_nil (p : Position) : lexemesFrom p [] = [] := by rw [lexemesFrom]

theorem lexemesFrom_cons (p : Position) (c : CodePoint) (s : Text) :
    lexemesFrom p (c :: s) = (nextLexemes c s).value.map (fun l => (p, l)) ++
      lexemesFrom (p.after ((c :: s).take (nextLexemes c s).width)) (nextLexemes c s).rest := by
  rw [lexemesFrom]

end ColorCensus.Css
