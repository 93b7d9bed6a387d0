import ColorCensus.Proofs.Color.Written
import ColorCensus.Proofs.Json.RoundTrip
import ColorCensus.Proofs.Table
import ColorCensus.Report

namespace ColorCensus

open Text CodePoint

namespace Report

variable {r : Report} {row : Text × ℤ} {rows : List (Text × ℤ)} {limit : DigitLimit} {text : Text}

structure Fits (limit : DigitLimit) (r : Report) : Prop where
  fileCount : limit.admits r.fileCount = true
  uniqueCount : limit.admits r.uniqueCount = true
  rows : ∀ row ∈ r.rows, limit.admits row.2 = true

theorem fits_none (r : Report) : r.Fits .none :=
  ⟨DigitLimit.admits_none _, DigitLimit.admits_none _, fun _ _ => DigitLimit.admits_none _⟩

theorem fits_of_lt (hf : r.fileCount.natAbs < 10 ^ leastLimit) (hu : r.uniqueCount < 10 ^ leastLimit)
    (hr : ∀ row ∈ r.rows, row.2.natAbs < 10 ^ leastLimit) (limit : DigitLimit) : r.Fits limit :=
  ⟨DigitLimit.admits_of_lt hf, DigitLimit.admits_of_lt (by simpa using hu),
    fun row hrow => DigitLimit.admits_of_lt (hr row hrow)⟩

theorem Fits.isWhole_json (h : r.Fits limit) : r.json.IsWhole limit := by
  have hrow : ∀ row ∈ r.rows, (rowJson row).IsWhole limit := by
    intro row hrow
    refine .object _ ?_
    simp only [List.forall_mem_cons]
    exact ⟨.string _, .integer _ (h.rows row hrow), by simp⟩
  refine .object _ ?_
  simp only [List.forall_mem_cons]
  refine ⟨.integer _ h.fileCount, .integer _ h.uniqueCount, .array _ ?_, by simp⟩
  rw [List.forall_mem_map]
  exact hrow

theorem Fits.parse_printed (h : r.Fits limit) : Json.parse limit (r.printed true) = .ok r.json :=
  Json.parse_text h.isWhole_json (List.forall_mem_singleton.mpr rfl)

theorem forall_mem_numbers_iff {p : ℤ → Prop} :
    (∀ n ∈ numbers rows, p n) ↔ (∀ i < rows.length, p i) ∧ ∀ row ∈ rows, p row.2 := by
  simp only [numbers, List.mem_flatten, List.mem_mapIdx]
  constructor
  · intro h
    refine ⟨fun i hi => h _ ⟨_, ⟨i, hi, rfl⟩, List.mem_cons_self⟩, fun row hrow => ?_⟩
    obtain ⟨i, hi, rfl⟩ := List.mem_iff_getElem.mp hrow
    exact h _ ⟨_, ⟨i, hi, rfl⟩, List.mem_cons_of_mem _ List.mem_cons_self⟩
  · rintro ⟨hindex, hrow⟩ n ⟨_, ⟨i, hi, rfl⟩, hn⟩
    simp only [List.mem_cons, List.not_mem_nil, or_false] at hn
    rcases hn with rfl | rfl
    · exact hindex i hi
    · exact hrow _ (List.getElem_mem hi)

theorem write_eq_ok_iff {asJson : Bool} :
    r.write limit asJson = .ok text ↔ r.Fits limit ∧ r.printed asJson = text := by
  -- no index has more digits than the number of rows, which is printed in front of them
  have hindex (h : limit.admits r.uniqueCount = true) : ∀ i < r.rows.length, limit.admits i = true := fun i hi =>
    DigitLimit.admits_of_natAbs_le (by rw [rows_length] at hi; simpa using hi.le) h
  have hrows (h : limit.admits r.uniqueCount = true) :
      (∀ n ∈ if asJson then r.rows.map Prod.snd else numbers r.rows, limit.admits n = true) ↔
        ∀ row ∈ r.rows, limit.admits row.2 = true := by
    cases asJson with
    | true => exact List.forall_mem_map
    | false => exact forall_mem_numbers_iff.trans (and_iff_right (hindex h))
  rw [write, DigitLimit.check_map_eq_ok_iff, List.forall_mem_cons, List.forall_mem_cons]
  refine and_congr_left' ⟨fun ⟨hf, hu, h⟩ => ⟨hf, hu, (hrows hu).mp h⟩, fun h => ?_⟩
  exact ⟨h.fileCount, h.uniqueCount, (hrows h.uniqueCount).mpr h.rows⟩

theorem parse_of_write (h : r.write limit true = .ok text) : Json.parse limit text = .ok r.json := by
  obtain ⟨hfits, rfl⟩ := write_eq_ok_iff.mp h
  exact hfits.parse_printed

def IsDocument (r : Report) (text : Text) : Prop :=
  ∃ v, (∀ limit, r.Fits limit → Json.parse limit text = .ok v) ∧
    v.member "file_count" = some (.integer r.fileCount) ∧
    v.member "unique_color_count" = some (.integer r.rows.length) ∧
    v.member "colors" = some (.array (r.rows.map fun row =>
      .object [("color", .string row.1), ("occurrences", .integer row.2)]))

theorem isDocument_printed (r : Report) : r.IsDocument (r.printed true) := by
  refine ⟨r.json, fun limit h => h.parse_printed, rfl, ?_, rfl⟩
  rw [rows_length]
  rfl

def IsTabulated (r : Report) (text : Text) : Prop :=
  ∃ table : Text, text = "CSS Color Value Inventory\n\n# of CSS files: " ++ integer r.fileCount ++
      "\n# of unique color values: " ++ natural r.rows.length ++ "\n\n" ++ table ++ "\n" ∧
    (split '\n' table).length = r.rows.length + 4 ∧
    Table.read table = [ofString "(index)", ofString "Color Values", ofString "Occurrences"] ::
      r.rows.mapIdx fun i row => [natural i, row.1, integer row.2]

theorem forall_cells {q : List Text → Prop} {rows : List (Text × ℤ)}
    (h : ∀ i, ∀ row ∈ rows, q [natural i, row.1, integer row.2]) : ∀ row ∈ Report.cells rows, q row := by
  intro cells hc
  rw [Report.cells, List.mem_mapIdx] at hc
  obtain ⟨i, hi, rfl⟩ := hc
  exact h i _ (List.getElem_mem hi)

theorem isCell_columns : ∀ s ∈ columns, Table.IsCell s := by
  simp only [columns, List.forall_mem_cons]
  exact ⟨⟨by decide, by decide, by decide⟩, ⟨by decide, by decide, by decide⟩,
    ⟨by decide, by decide, by decide⟩, by simp⟩

theorem isTabulated_printed (h : ∀ row ∈ r.rows, Table.IsCell row.1) :
    r.IsTabulated (r.printed false) := by
  have hcells : ∀ cells ∈ columns :: Report.cells r.rows, ∀ s ∈ cells, Table.IsCell s := by
    refine List.forall_mem_cons.mpr ⟨isCell_columns, forall_cells fun i row hrow => ?_⟩
    simp only [List.forall_mem_cons]
    exact ⟨Table.isCell_natural i, h row hrow, Table.isCell_integer row.2, by simp⟩
  have htitle : ofString "CSS Color Value Inventory\n\n# of CSS files: " =
      title ++ "\n\n# of CSS files: " := rfl
  have hend : ofString "\n\n" = ofString "\n" ++ ofString "\n" := rfl
  refine ⟨table r.rows, ?_, ?_, ?_⟩
  · rw [rows_length, htitle, hend]
    simp only [printed, text, summary, List.append_assoc, Bool.false_eq_true, if_false]
  · rw [table, Table.split_text fun cells hc s hs => (hcells cells hc s hs).line, Table.lines_length, cells_length]
  · exact Table.read_text (by simp [columns]) (forall_cells fun i row _ => rfl) hcells

theorem sum_rows (r : Report) : (r.rows.map Prod.snd).sum = r.total := by
  rw [(r.rows_perm.map Prod.snd).sum_eq, List.sum, List.foldr_map]
  rfl

end Report

namespace Color

variable {c : Rgba} {s : Text}

theorem isPlain_of_isShortFraction (h : IsShortFraction s) : ∀ d ∈ s, IsPlain d := by
  obtain rfl | ⟨digits, -, -, hd, rfl⟩ := h
  · decide
  · exact List.forall_mem_append.mpr ⟨by decide, fun d hm => .inl (hd d hm)⟩

theorem isCell_of_isPlain {name : Text} {parts : List Text} (hn : ∀ d ∈ name, IsPlain d)
    (hp : ∀ part ∈ parts, ∀ d ∈ part, IsPlain d) : Table.IsCell (name ++ join ", " parts ++ ")") := by
  have hplain : ∀ d ∈ name ++ join ", " parts ++ ")", IsPlain d := by
    simp only [List.forall_mem_append]
    exact ⟨⟨hn, forall_mem_intercalate (by decide) hp⟩, by decide⟩
  refine ⟨fun hc => absurd (hplain _ hc) (by decide), fun hc => absurd (hplain _ hc) (by decide), ?_⟩
  intro c hc
  cases List.getLast?_concat.symm.trans hc
  decide

theorem Written.isCell (h : Written c s) : Table.IsCell s := by
  have hnatural (n : ℕ) : ∀ d ∈ natural n, IsPlain d := isPlain_of_numeral (numeral_natural n)
  cases h with
  | solid red green blue hr hg hb =>
    refine isCell_of_isPlain (by decide) ?_
    simp only [List.forall_mem_cons]
    exact ⟨hnatural red, hnatural green, hnatural blue, by simp⟩
  | translucent red green blue hr hg hb a ha =>
    refine isCell_of_isPlain (by decide) ?_
    simp only [List.forall_mem_cons]
    exact ⟨hnatural red, hnatural green, hnatural blue, isPlain_of_isShortFraction ha, by simp⟩

theorem isCell_of_normalize {t : Text} (h : normalize t = .ok (some s)) : Table.IsCell s := by
  obtain ⟨c, hc, -, rfl⟩ := exists_of_normalize h
  exact (written_text hc).isCell

end Color

end ColorCensus
