import ColorCensus.Proofs.Color.Printed
import ColorCensus.Proofs.Report

namespace ColorCensus

open Text CodePoint

namespace Table

variable {l m r : CodePoint} {s part : Text} {parts : List Text} {ws : List ℕ} {cells header : List Text}
  {body : List (List Text)}

def stops (text : Text) : List ℕ :=
  ((split '\n' text).headD []).findIdxs fun c : CodePoint => c = '┌' || c = '┬' || c = '┐'

def marks (places : List ℕ) (s : Text) : List (Option CodePoint) := places.map (s[·]?)

def cut (places : List ℕ) (s : Text) : List Text :=
  (places.zip places.tail).map fun place => (s.take place.2).drop (place.1 + 1)

def content? : Text → Option Text
  | ' ' :: s => some (dropTrailing (· = char ' ') s)
  | _ => none

def framed (l m r : CodePoint) (parts : List Text) : Text := l :: (join [m] parts ++ [r])

theorem framed_singleton : framed l m r [part] = l :: part ++ [r] := by
  rw [framed, join, List.intercalate_singleton, List.cons_append]

theorem framed_cons_cons {next : Text} :
    framed l m r (part :: next :: parts) = l :: part ++ framed m m r (next :: parts) := by
  rw [framed, framed, join, List.intercalate_cons_cons, join]
  simp

section

variable (l : CodePoint) (front part rest : Text)

end

theorem length_framed (l : CodePoint) (part : Text) (parts : List Text) :
    (framed l m r (part :: parts)).length = ((part :: parts).map fun s => s.length + 1).sum + 1 := by
  induction parts generalizing l part with
  | nil => simp [framed_singleton]
  | cons next parts ih =>
    rw [List.map_cons, List.sum_cons, framed_cons_cons, List.length_append, ih, List.length_cons]
    omega

def Fits (cells : List Text) (ws : List ℕ) : Prop := List.Forall₂ (fun s w => s.length ≤ w) cells ws

theorem Fits.widen (h : Fits cells ws) {others : List Text} (hl : others.length = ws.length) :
    Fits cells (widen ws others) := by
  induction h generalizing others with
  | nil => exact .nil
  | cons hs _ ih =>
    cases others with
    | nil => cases hl
    | cons t others => exact .cons (le_trans hs (le_max_left ..)) (ih (Nat.succ.inj hl))

def IsRuled (l m r : CodePoint) (ws : List ℕ) (s : Text) : Prop :=
  ∃ parts, s = framed l m r parts ∧ parts.map List.length = ws.map (· + 2)

theorem exists_cons_of_map_length (h0 : ws ≠ []) (h : parts.map List.length = ws.map (· + 2)) :
    ∃ part rest, parts = part :: rest := by
  refine List.exists_cons_of_ne_nil ?_
  rintro rfl
  exact h0 (List.map_eq_nil_iff.mp h.symm)

theorem IsRuled.length_eq (h0 : ws ≠ []) (h : IsRuled l m r ws s) : s.length = (ws.map (· + 3)).sum + 1 := by
  obtain ⟨parts, rfl, hparts⟩ := h
  obtain ⟨part, rest, rfl⟩ := exists_cons_of_map_length h0 hparts
  have hsum := congrArg (List.map (· + 1)) hparts
  rw [List.map_map, List.map_map] at hsum
  rw [length_framed]
  exact congrArg (fun ks : List ℕ => ks.sum + 1) hsum

section

variable (hl : ∀ cells ∈ body, cells.length = header.length) (h0 : header ≠ [])

include hl

include h0

variable (hn : ∀ cells ∈ header :: body, ∀ s ∈ cells, char '\n' ∉ s)

include hn

end

end Table

namespace Report

variable {rows others : List (Text × ℤ)} {limit : DigitLimit} {text : Text}

end Report

end ColorCensus
