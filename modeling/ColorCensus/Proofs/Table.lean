import ColorCensus.Proofs.Text.Digits
import ColorCensus.Proofs.Text.Split
import ColorCensus.Table

namespace ColorCensus.Table

open Text CodePoint

variable {s : Text} {width : ℕ} {ws : List ℕ} {cells header : List Text} {body : List (List Text)}

def readCell (s : Text) : Text := dropTrailing (· = char ' ') (s.drop 1)

def readLine : Text → Option (List Text)
  | '│' :: line => some ((split '│' line).dropLast.map readCell)
  | _ => none

def read (text : Text) : List (List Text) := (split '\n' text).filterMap readLine

structure IsCell (s : Text) : Prop where
  line : char '\n' ∉ s
  border : char '│' ∉ s
  tight : ∀ c ∈ s.getLast?, c ≠ char ' '

theorem dropTrailing_of_getLast? (h : ∀ c ∈ s.getLast?, c ≠ char ' ') : dropTrailing (· = char ' ') s = s := by
  rw [← List.head?_reverse] at h
  rw [dropTrailing]
  cases hr : s.reverse with
  | nil => rw [List.dropWhile_nil, ← hr, List.reverse_reverse]
  | cons c t =>
    rw [hr] at h
    rw [List.dropWhile_cons_of_neg (by simpa using h c rfl), ← hr, List.reverse_reverse]

theorem isCell_of_isDigit (h : ∀ c ∈ s, c.isDigit = true) : IsCell s := by
  refine ⟨fun hc => ?_, fun hc => ?_, fun c hc => ?_⟩
  · exact absurd (h _ hc) (by decide)
  · exact absurd (h _ hc) (by decide)
  · rintro rfl
    exact absurd (h _ (List.mem_of_getLast? hc)) (by decide)

theorem isCell_natural (n : ℕ) : IsCell (natural n) :=
  isCell_of_isDigit fun _ hc => isDigit_of_mem_natural hc

theorem isCell_integer (n : ℤ) : IsCell (integer n) := by
  cases n with
  | ofNat n => exact isCell_natural n
  | negSucc n =>
    obtain ⟨hline, hborder, htight⟩ := isCell_natural (n + 1)
    refine ⟨?_, ?_, ?_⟩
    · simp [integer, hline]
    · simp [integer, hborder]
    · rw [integer, List.getLast?_cons_of_ne_nil (natural_ne_nil _)]
      exact htight

theorem cell_eq (width : ℕ) (s : Text) :
    cell width s = char ' ' :: (s ++ copies (width - s.length + 1) ' ') := by
  simp [cell, padRight, copies, ofString, List.replicate_succ']

theorem readCell_cell (h : ∀ c ∈ s.getLast?, c ≠ char ' ') : readCell (cell width s) = s := by
  rw [cell_eq, readCell, List.drop_succ_cons, List.drop_zero, dropTrailing_append_copies, dropTrailing_of_getLast? h]

theorem not_mem_cell {c : CodePoint} (hc : c ≠ char ' ') (h : c ∉ s) : c ∉ cell width s := by
  rw [cell_eq]
  simp [hc, h, copies]

theorem map_zipWith_cell {α : Type} {f g : Text → α} (hl : ws.length = cells.length)
    (h : ∀ s ∈ cells, ∀ width, f (cell width s) = g s) : (ws.zipWith cell cells).map f = cells.map g := by
  induction cells generalizing ws with
  | nil => simp
  | cons s cells ih =>
    obtain ⟨hs, hcells⟩ := List.forall_mem_cons.mp h
    cases ws with
    | nil => cases hl
    | cons w ws =>
      rw [List.zipWith_cons_cons, List.map_cons, hs, ih (Nat.succ.inj hl) hcells, List.map_cons]

theorem not_mem_of_mem_zipWith {c : CodePoint} (ws : List ℕ) (hc : c ≠ char ' ') (h : ∀ s ∈ cells, c ∉ s) :
    ∀ part ∈ ws.zipWith cell cells, c ∉ part := by
  intro part hpart
  rw [← List.map_uncurry_zip_eq_zipWith] at hpart
  obtain ⟨⟨w, s⟩, hs, rfl⟩ := List.mem_map.mp hpart
  exact not_mem_cell hc (h s (List.of_mem_zip hs).2)

theorem line_eq (ws : List ℕ) (cells : List Text) :
    line ws cells = char '│' :: (join [char '│'] (ws.zipWith cell cells) ++ [char '│']) := rfl

theorem readLine_line (h0 : cells ≠ []) (hl : ws.length = cells.length) (h : ∀ s ∈ cells, IsCell s) :
    readLine (line ws cells) = some cells := by
  have hne : ws.zipWith cell cells ≠ [] := by
    intro hnil
    have hlength := congrArg List.length hnil
    rw [List.length_zipWith, hl, min_self, List.length_nil, List.length_eq_zero_iff] at hlength
    exact h0 hlength
  have hborder := not_mem_of_mem_zipWith ws (by decide) fun s hs => (h s hs).border
  have hsplit : split '│' (join [char '│'] (ws.zipWith cell cells) ++ [char '│']) =
      ws.zipWith cell cells ++ [[]] := by
    rw [split_append_cons, split_join hborder hne]
    rfl
  rw [line_eq]
  change some ((split '│' (join [char '│'] (ws.zipWith cell cells) ++ [char '│'])).dropLast.map readCell) = _
  rw [hsplit, List.dropLast_concat,
    map_zipWith_cell (g := id) hl fun s hs _ => readCell_cell (h s hs).tight, List.map_id]

theorem readLine_border {l m r : CodePoint} (hl : l ≠ char '│') (ws : List ℕ) :
    readLine (border l m r ws) = none := by
  unfold readLine
  split
  · next h => exact absurd (List.cons.inj h).1 hl
  · rfl

theorem newline_not_mem_line (h : ∀ s ∈ cells, char '\n' ∉ s) : char '\n' ∉ line ws cells := by
  have hcells := not_mem_of_mem_zipWith ws (by decide) h
  have hjoin : ∀ c ∈ join [char '│'] (ws.zipWith cell cells), c ≠ char '\n' :=
    forall_mem_intercalate (by decide) fun part hp c hc hn => hcells part hp (hn ▸ hc)
  have hline : ∀ c ∈ line ws cells, c ≠ char '\n' :=
    List.forall_mem_cons.mpr ⟨by decide, List.forall_mem_append.mpr ⟨hjoin, by decide⟩⟩
  exact fun hmem => hline _ hmem rfl

theorem newline_not_mem_border {l m r : CodePoint} (hl : l ≠ char '\n') (hm : m ≠ char '\n')
    (hr : r ≠ char '\n') (ws : List ℕ) : char '\n' ∉ border l m r ws := by
  have hjoin : ∀ c ∈ join [m] (ws.map fun w => copies (w + 2) '─'), c ≠ char '\n' := by
    refine forall_mem_intercalate (by simpa using hm) fun part hp c hc => ?_
    obtain ⟨w, -, rfl⟩ := List.mem_map.mp hp
    rw [List.eq_of_mem_replicate hc]
    decide
  have hborder : ∀ c ∈ border l m r ws, c ≠ char '\n' := by
    rw [border]
    exact List.forall_mem_append.mpr ⟨List.forall_mem_cons.mpr ⟨hl, hjoin⟩, by simpa using hr⟩
  exact fun hmem => hborder _ hmem rfl

theorem length_foldl_widen (h : ∀ cells ∈ body, cells.length = ws.length) :
    (body.foldl widen ws).length = ws.length := by
  induction body generalizing ws with
  | nil => rfl
  | cons cells body ih =>
    obtain ⟨hcells, hbody⟩ := List.forall_mem_cons.mp h
    have hwiden : (widen ws cells).length = ws.length := by
      rw [widen, List.length_zipWith, List.length_map, hcells, min_self]
    rw [List.foldl_cons, ih (by rwa [hwiden]), hwiden]

theorem length_widths (h : ∀ cells ∈ body, cells.length = header.length) :
    (widths header body).length = header.length := by
  rw [widths, length_foldl_widen (by rwa [List.length_map]), List.length_map]

theorem split_text (h : ∀ cells ∈ header :: body, ∀ s ∈ cells, char '\n' ∉ s) :
    split '\n' (text header body) = lines header body := by
  obtain ⟨hheader, hbody⟩ := List.forall_mem_cons.mp h
  refine split_join ?_ (by simp [lines])
  have hb {l m r : CodePoint} (hl : l ≠ char '\n') (hm : m ≠ char '\n') (hr : r ≠ char '\n') :=
    newline_not_mem_border hl hm hr (widths header body)
  simp only [lines, List.forall_mem_append, List.forall_mem_cons, List.forall_mem_map]
  exact ⟨⟨⟨hb (by decide) (by decide) (by decide), newline_not_mem_line hheader,
    hb (by decide) (by decide) (by decide), by simp⟩, fun cells hc => newline_not_mem_line (hbody cells hc)⟩,
    hb (by decide) (by decide) (by decide), by simp⟩

theorem filterMap_readLine (h : ∀ cells ∈ body, readLine (line ws cells) = some cells) :
    (body.map (line ws)).filterMap readLine = body := by
  induction body with
  | nil => rfl
  | cons cells body ih =>
    obtain ⟨hcells, hbody⟩ := List.forall_mem_cons.mp h
    rw [List.map_cons, List.filterMap_cons_some hcells, ih hbody]

theorem read_text (h0 : header ≠ []) (hl : ∀ cells ∈ body, cells.length = header.length)
    (h : ∀ cells ∈ header :: body, ∀ s ∈ cells, IsCell s) : read (text header body) = header :: body := by
  obtain ⟨hheader, hbody⟩ := List.forall_mem_cons.mp h
  have hwidths := length_widths hl
  have hrow : ∀ cells ∈ body, readLine (line (widths header body) cells) = some cells := by
    intro cells hc
    have hne : cells ≠ [] := by
      rw [← List.length_pos_iff, hl cells hc]
      exact List.length_pos_iff.mpr h0
    exact readLine_line hne (hwidths.trans (hl cells hc).symm) (hbody cells hc)
  rw [read, split_text fun cells hc s hs => (h cells hc s hs).line]
  simp only [lines, List.cons_append, List.nil_append, List.filterMap_cons, List.filterMap_append,
    readLine_border (show char '┌' ≠ char '│' by decide), readLine_border (show char '├' ≠ char '│' by decide),
    readLine_border (show char '└' ≠ char '│' by decide), readLine_line h0 hwidths hheader,
    filterMap_readLine hrow, List.filterMap_nil, List.append_nil]

end ColorCensus.Table
