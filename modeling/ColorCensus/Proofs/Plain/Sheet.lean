import ColorCensus.Proofs.Css.Extraction
import ColorCensus.Proofs.Plain.Nodes

namespace ColorCensus.Plain

open Text CodePoint Css

variable {rules : List Rule} {ns : List Node} {s : Text}

theorem scanned_of_isQuiet (h : ∀ c ∈ s, IsQuiet c) (t : Text) : scanned (s ++ t) = scanned t :=
  scanned_append fun c hc => (h c hc).1

theorem Rule.text_eq (r : Rule) : r.text = (r.selector.text ++ [char ' ']) ++ Bracket.curly.opening ::
    (([char ' '] ++ r.declarations.flatMap Declaration.text) ++ [Bracket.curly.closing]) := by
  simp [text, ofString, Bracket.opening, Bracket.closing]

theorem Rule.isQuiet_of_mem_selector (r : Rule) : ∀ c ∈ r.selector.text ++ [char ' '], IsQuiet c :=
  List.forall_mem_append.mpr
    ⟨fun c hc => isQuiet_of_mem_letters c (r.selector.isLetter c hc), by decide⟩

theorem Rule.isQuiet_of_mem_content (r : Rule) :
    ∀ c ∈ [char ' '] ++ r.declarations.flatMap Declaration.text, IsQuiet c := by
  refine List.forall_mem_append.mpr ⟨by decide, ?_⟩
  intro c hc
  obtain ⟨d, -, hd⟩ := List.mem_flatMap.mp hc
  exact d.isQuiet_of_mem c hd

theorem Rule.scanned_text (r : Rule) (t : Text) : scanned (r.text ++ t) =
    Bracket.curly.opening :: Bracket.curly.closing :: scanned t := by
  rw [r.text_eq, List.append_assoc, scanned_of_isQuiet r.isQuiet_of_mem_selector, List.cons_append,
    scanned_curly (by decide), List.append_assoc, scanned_of_isQuiet r.isQuiet_of_mem_content,
    List.singleton_append, scanned_curly (by decide)]

theorem imbalance_sheetText (rules : List Rule) : imbalance (sheetText rules) = none := by
  have h : imbalanceFrom 0 (scanned (sheetText rules)) = none := by
    induction rules with
    | nil => rw [sheetText, List.map_nil, join, List.intercalate_nil, scanned_nil]; rfl
    | cons r rules ih =>
      cases rules with
      | nil =>
        have hr := r.scanned_text []
        rw [List.append_nil] at hr
        rw [sheetText, List.map_singleton, join, List.intercalate_singleton, hr, scanned_nil]
        rfl
      | cons r' rules =>
        have hs : sheetText (r :: r' :: rules) = r.text ++ (ofString "\n" ++ sheetText (r' :: rules)) := by
          rw [sheetText, List.map_cons, List.map_cons, join, List.intercalate_cons_cons, List.append_assoc]
          rfl
        rw [hs, r.scanned_text, scanned_of_isQuiet (by decide)]
        exact ih
  rwa [imbalance, ← imbalanceFrom_filter]

theorem forall_mem_sheetText (rules : List Rule) :
    ∀ c ∈ sheetText rules, c ≠ '\r' ∧ c ≠ '\x0c' ∧ c ≠ '\x00' := by
  refine forall_mem_intercalate (by decide) ?_
  rw [List.forall_mem_map]
  intro r _
  have hselector := fun c hc => (r.isQuiet_of_mem_selector c hc).2
  have hcontent := fun c hc => (r.isQuiet_of_mem_content c hc).2
  rw [r.text_eq]
  refine List.forall_mem_append.mpr ⟨hselector, List.forall_mem_cons.mpr ⟨by decide, ?_⟩⟩
  exact List.forall_mem_append.mpr ⟨hcontent, by decide⟩

def Rule.read (r : Rule) : Css.Rule :=
  .style .start [.token .start (.ident r.selector.text), blank] r.content

theorem Rule.readAll_nodes (r : Rule) (ns : List Node) :
    Css.Rule.readAll (r.nodes ++ ns) = r.read :: Css.Rule.readAll ns := by
  have hk : ¬ (Node.token .start (.ident r.selector.text)).IsAtKeyword := by
    rintro ⟨p, keyword, h⟩
    cases h
  exact Css.Rule.readAll_style rfl hk

theorem readAll_sheetNodes (rules : List Rule) :
    Css.Rule.readAll (sheetNodes rules) = rules.map Rule.read := by
  induction rules with
  | nil => exact Css.Rule.readAll_nil
  | cons r rules ih =>
    cases rules with
    | nil =>
      have hr := r.readAll_nodes []
      rwa [List.append_nil, Css.Rule.readAll_nil] at hr
    | cons r' rules =>
      rw [sheetNodes, List.map_cons, List.map_cons, List.intercalate_cons_cons, List.append_assoc,
        r.readAll_nodes, List.singleton_append, Css.Rule.readAll_between rfl]
      exact congrArg (r.read :: ·) ih

def Declaration.read (d : Declaration) : Item := .declaration d.property.text (blank :: d.valueNodes)

def IsPlainValue (n : Node) : Prop :=
  n.isDelimiter [';'] = false ∧ n.curlyContent = none ∧ n.isDelimiter ['!'] = false ∧ n.isImportant = false

theorem splitDeclaration_semicolon (h : ∀ n ∈ ns, IsPlainValue n) (ms : List Node) :
    splitDeclaration (ns ++ semicolon :: ms) = (ns, some semicolon, ms) := by
  induction ns with
  | nil => rfl
  | cons n ns ih =>
    obtain ⟨hn, hns⟩ := List.forall_mem_cons.mp h
    rw [List.cons_append, splitDeclaration, if_neg (by simp [hn.1]), if_neg (by simp [hn.2.1]), ih hns]

theorem IsPlainValue.step {n : Node} (h : IsPlainValue n) {v : ValueScan} (hs : v.state = .value)
    (hm : v.mixed = false) : (v.step n).state = .value ∧ (v.step n).mixed = false := by
  obtain ⟨-, hc, hb, -⟩ := h
  rw [ValueScan.step, if_neg (by simp [hb]), if_neg (by simp [hs])]
  split
  · exact ⟨hs, hm⟩
  · simp [hm, hc]

theorem foldl_step (h : ∀ n ∈ ns, IsPlainValue n) {v : ValueScan} (hs : v.state = .value)
    (hm : v.mixed = false) :
    (ns.foldl ValueScan.step v).state = .value ∧ (ns.foldl ValueScan.step v).mixed = false := by
  induction ns generalizing v with
  | nil => exact ⟨hs, hm⟩
  | cons n ns ih =>
    obtain ⟨hn, hns⟩ := List.forall_mem_cons.mp h
    exact ih hns (hn.step hs hm).1 (hn.step hs hm).2

theorem declarationValue_eq (h : ∀ n ∈ ns, IsPlainValue n) : declarationValue ns = some ns := by
  obtain ⟨hs, hm⟩ := foldl_step h (v := .start) rfl rfl
  rw [declarationValue, if_neg (by simp [hm]), if_neg (by simp [hs])]

theorem Declaration.isPlainValue (d : Declaration) : ∀ n ∈ blank :: d.valueNodes, IsPlainValue n := by
  have hcomma : ∀ n ∈ [comma, blank], IsPlainValue n := by
    simp [IsPlainValue, comma, blank, Node.isDelimiter, Token.isDelimiter, Node.curlyContent,
      Node.isImportant]
  refine List.forall_mem_cons.mpr ⟨hcomma blank (by simp), forall_mem_intercalate hcomma ?_⟩
  rw [List.forall_mem_map]
  intro i _ n hn
  rw [List.mem_singleton.mp hn]
  exact ⟨rfl, rfl, rfl, rfl⟩

theorem Declaration.readAll_nodes (d : Declaration) (ns : List Node) :
    Item.readAll (d.nodes ++ ns) = d.read :: Item.readAll ns := by
  have hk : ¬ (Node.token .start (.ident d.property.text)).IsAtKeyword := by
    rintro ⟨p, keyword, h⟩
    cases h
  have hcolon : IsPlainValue colon := ⟨rfl, rfl, rfl, rfl⟩
  have hsplit := splitDeclaration_semicolon (List.forall_mem_cons.mpr ⟨hcolon, d.isPlainValue⟩) (blank :: ns)
  have hd : d.nodes ++ ns = .token .start (.ident d.property.text) ::
      (colon :: (blank :: d.valueNodes) ++ semicolon :: (blank :: ns)) := by
    simp [nodes]
  have hc : colon.isDelimiter [char ':'] = true := rfl
  rw [hd, Item.readAll_item rfl hk rfl, Item.readOne, hsplit, Item.declaration?_ident rfl, if_pos hc,
    declarationValue_eq d.isPlainValue, Item.readAll_between rfl]
  rfl

theorem Rule.readAll_content (r : Rule) : Item.readAll r.content = r.declarations.map Declaration.read := by
  rw [content, Item.readAll_between rfl]
  induction r.declarations with
  | nil => exact Item.readAll_nil
  | cons d ds ih => rw [List.flatMap_cons, d.readAll_nodes, ih, List.map_cons]

def IsMute (k : Kind) : Prop := (∀ pair ∈ Kind.clashes, k ∉ pair.1) ∧ k ≠ .mark '\\'

instance : DecidablePred IsMute := fun _ => inferInstanceAs (Decidable (_ ∧ _))

theorem separatorText_of_isMute {k : Kind} (h : IsMute k) (n : Node) : separatorText (some k) n = [] := by
  have hr : k.runsInto n.kind = false := by
    rw [Kind.runsInto, List.any_eq_false]
    intro pair hp
    simp [h.1 pair hp]
  rw [separatorText, if_neg (by simp [hr]), if_neg fun hk => h.2 hk.1]

theorem listTextAfter_commas {k : Option Kind} (hk : ∀ n, separatorText k n = [])
    (h : ∀ n ∈ ns, separatorText (some n.kind) comma = []) :
    Node.listTextAfter k ([comma, blank].intercalate (ns.map fun n => [n])) =
      join ", " (ns.map Node.text) := by
  induction ns generalizing k with
  | nil => rfl
  | cons n ns ih =>
    obtain ⟨hn, hns⟩ := List.forall_mem_cons.mp h
    cases ns with
    | nil =>
      rw [List.map_singleton, List.map_singleton, List.intercalate_singleton, join,
        List.intercalate_singleton, Node.listTextAfter, hk, Node.listTextAfter]
      simp
    | cons m ns =>
      have hcomma := separatorText_of_isMute (k := comma.kind) (by decide)
      have ih := ih (separatorText_of_isMute (k := blank.kind) (by decide)) hns
      have hcons : [comma, blank].intercalate ((n :: m :: ns).map fun n => [n]) =
          n :: comma :: blank :: [comma, blank].intercalate ((m :: ns).map fun n => [n]) := rfl
      rw [hcons, Node.listTextAfter, hk, Node.listTextAfter, hn, Node.listTextAfter, hcomma, ih]
      simp [join, comma, blank, Node.text, Token.text, ofString]

theorem listEndsInString_eq_false (h : ∀ n ∈ ns, n.endsInString = false) :
    Node.listEndsInString ns = false := by
  induction ns with
  | nil => rfl
  | cons n ns ih =>
    obtain ⟨hn, hns⟩ := List.forall_mem_cons.mp h
    cases ns with
    | nil => exact hn
    | cons m ns => exact ih hns

theorem Ink.text_node (i : Ink) : i.node.text = i.text := by
  have hname : identifierText i.function = i.function := by
    rcases i.function_eq with h | h <;> rw [h] <;> decide
  have hends : Node.listEndsInString i.argumentNodes = false := by
    refine listEndsInString_eq_false (forall_mem_intercalate (by decide) ?_)
    rw [List.forall_mem_map]
    intro r _ n hn
    rw [List.mem_singleton.mp hn]
    rfl
  have hnodes : i.argumentNodes = [comma, blank].intercalate
      ((i.numerals.map fun r => Node.token .start (.number r)).map fun n => [n]) := by
    rw [List.map_map]
    rfl
  have harguments : Node.listTextAfter none i.argumentNodes = join ", " i.numerals := by
    rw [hnodes, listTextAfter_commas (fun _ => rfl), List.map_map]
    · exact congrArg (join ", ") (List.map_id _)
    · rw [List.forall_mem_map]
      exact fun r _ => rfl
  rw [node, Node.text, hname, harguments, hends]
  rfl

theorem Declaration.listText_valueNodes (d : Declaration) :
    Node.listText (blank :: d.valueNodes) = char ' ' :: d.value := by
  have hnodes : d.valueNodes = [comma, blank].intercalate ((d.inks.map Ink.node).map fun n => [n]) := by
    rw [List.map_map]
    rfl
  have hvalue : Node.listTextAfter (some blank.kind) d.valueNodes = d.value := by
    rw [hnodes, listTextAfter_commas (separatorText_of_isMute (by decide)), List.map_map]
    · exact congrArg (join ", ") (List.map_congr_left fun i _ => i.text_node)
    · rw [List.forall_mem_map]
      exact fun i _ => rfl
  rw [Node.listText, Node.listTextAfter, hvalue]
  rfl

theorem Declaration.valueText_valueNodes (d : Declaration) : valueText (blank :: d.valueNodes) = d.value := by
  obtain ⟨s, hs⟩ := d.value_ends
  have hends := Color.strip_of_ends (s := s) (c := char 'r') (d := char ')') (by decide) (by decide)
  have hstrip : strip (char ' ' :: d.value) = d.value := by
    rw [hs, strip, List.dropWhile_cons_of_pos (by decide)]
    exact hends
  rw [valueText, d.listText_valueNodes, hstrip, Color.lower_of_isPlain d.isPlain_of_mem_value]

theorem strip_ne_nil {c : CodePoint} (h : isBlank c = false) : strip (c :: s) ≠ [] := by
  rw [strip, List.dropWhile_cons_of_neg (by simp [h]), dropTrailing, ne_eq, List.reverse_eq_nil_iff,
    List.dropWhile_eq_nil_iff]
  intro hall
  have hc := hall c (by simp)
  rw [h] at hc
  cases hc

theorem Rule.fault?_read (r : Rule) : r.read.fault? = none := by
  obtain ⟨c, s, hs, hc⟩ := r.selector.exists_cons
  obtain ⟨hstart, -, -, hblank⟩ := classes_of_mem_letters c hc
  have hm : c ≠ char '-' := by
    rintro rfl
    exact absurd hstart (by decide)
  have htext : identifierText (c :: s) = c :: nameText s := by
    rw [identifierText, firstText, if_pos hstart, List.singleton_append]
    all_goals simp [hm]
  have hprelude : strip (Node.listText [.token .start (.ident r.selector.text), blank]) ≠ [] := by
    rw [hs, Node.listText, Node.listTextAfter, Node.text, Token.text, htext]
    exact strip_ne_nil hblank
  rw [read, Css.Rule.fault?, if_neg hprelude]

def Declaration.entry (d : Declaration) : Css.Declaration := ⟨d.property.text, d.value⟩

theorem Declaration.extract_read (P : List Text) (d : Declaration) : d.read.extract P =
    if P.contains d.property.text then ⟨[d.entry], none⟩ else .empty := by
  rw [read, Item.extract, d.valueText_valueNodes]
  rfl

theorem items_read (rules : List Rule) :
    items (rules.map Rule.read) = (rules.flatMap Rule.declarations).map Declaration.read := by
  rw [items, List.flatMap_map, List.map_flatMap]
  exact List.flatMap_congr fun r _ => r.readAll_content

theorem extract_read (P : List Text) (rules : List Rule) :
    extract P (rules.map Rule.read) = ⟨(listed P rules).map Declaration.entry, none⟩ := by
  rw [extract_eq, items_read, listed]
  induction rules.flatMap Rule.declarations with
  | nil => rfl
  | cons d ds ih =>
    have hc : Extraction.concat (((d :: ds).map Declaration.read).map (Item.extract P)) =
        (d.read.extract P).andThen (.concat ((ds.map Declaration.read).map (Item.extract P))) := rfl
    rw [hc, ih, d.extract_read]
    by_cases hp : P.contains d.property.text = true
    · rw [if_pos hp, List.filter_cons, if_pos hp]
      rfl
    · rw [if_neg hp, List.filter_cons, if_neg hp, Extraction.empty_andThen]

theorem map_relocate_readAll (rules : List Rule) :
    (Css.Rule.readAll (Node.read (sheetText rules))).map (Css.Rule.relocate fun _ => .start) =
      rules.map Rule.read := by
  have h : (Node.read (sheetText rules)).map Node.unplaced = sheetNodes rules :=
    Node.read_of_reads (reads_sheet rules) (forall_mem_sheetText rules)
  rw [← readAll_sheetNodes, ← h, ← Css.Rule.readAll_relocate]
  rfl

theorem parse_sheetText (rules : List Rule) :
    parse (sheetText rules) = .ok (Css.Rule.readAll (Node.read (sheetText rules))) := by
  refine parse_eq_ok.mpr ⟨imbalance_sheetText rules, fun rule hr => ?_, rfl⟩
  have hm := List.mem_map_of_mem (f := Css.Rule.relocate fun _ => .start) hr
  rw [map_relocate_readAll] at hm
  obtain ⟨r, -, h⟩ := List.mem_map.mp hm
  have hf : (rule.relocate fun _ => .start).fault? = _ := Css.Rule.fault?_relocate
  rw [← h, r.fault?_read] at hf
  exact Option.map_eq_none_iff.mp hf.symm

theorem extract_sheetText (P : List Text) (rules : List Rule) :
    extract P (Css.Rule.readAll (Node.read (sheetText rules))) =
      ⟨(listed P rules).map Declaration.entry, none⟩ := by
  have h : (extract P (Css.Rule.readAll (Node.read (sheetText rules)))).relocate (fun _ => .start) =
      ⟨(listed P rules).map Declaration.entry, none⟩ := by
    rw [← extract_map_relocate, map_relocate_readAll, extract_read]
  rw [Extraction.relocate, Extraction.mk.injEq, Option.map_eq_none_iff] at h
  exact (Extraction.mk.injEq ..).mpr h

end ColorCensus.Plain
