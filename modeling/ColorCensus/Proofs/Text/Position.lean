import ColorCensus.Text.Newline

namespace ColorCensus.Position

variable {p base : Position} {c : CodePoint} {s : Text}

theorem after_cons : p.after (c :: s) = (p.next c).after s := rfl

theorem line_le_next : p.line ≤ (p.next c).line := by
  rw [next]
  split
  · exact Nat.le_succ _
  · exact Nat.le_refl _

theorem line_le_after : p.line ≤ (p.after s).line := by
  induction s generalizing p with
  | nil => exact Nat.le_refl _
  | cons c s ih => exact Nat.le_trans line_le_next ih

theorem column_after (h : (p.after s).line = p.line) : (p.after s).column = p.column + s.length := by
  induction s generalizing p with
  | nil => rfl
  | cons c s ih =>
    rw [after_cons] at h ⊢
    have hn : (p.next c).line = p.line := Nat.le_antisymm (h ▸ line_le_after) line_le_next
    rw [ih (h.trans hn.symm), List.length_cons]
    rw [next] at hn ⊢
    split
    · next hc =>
      rw [if_pos hc] at hn
      exact absurd hn (Nat.succ_ne_self _)
    · dsimp only
      omega

theorem after_ne_self (h : s ≠ []) : p.after s ≠ p := by
  intro hp
  have hc := column_after (congrArg line hp)
  have hl := List.length_pos_iff.mpr h
  rw [hp] at hc
  omega

theorem line_after_pos (h : 0 < p.line) : 0 < (p.after s).line := Nat.lt_of_lt_of_le h line_le_after

theorem column_next_pos (h : 0 < p.column) : 0 < (p.next c).column := by
  rw [next]
  split
  · exact Nat.one_pos
  · exact Nat.lt_succ_of_lt h

theorem column_after_pos (h : 0 < p.column) : 0 < (p.after s).column := by
  induction s generalizing p with
  | nil => exact h
  | cons c s ih => exact ih (column_next_pos h)

def movedFrom (base p : Position) : Position :=
  ⟨base.line - 1 + p.line, if p.line = 1 then base.column - 1 + p.column else p.column⟩

theorem movedFrom_start (hl : 0 < base.line) (hc : 0 < base.column) : movedFrom base start = base := by
  obtain ⟨l, c⟩ := base
  simp only [movedFrom, start, if_true, mk.injEq]
  dsimp only at hl hc
  omega

theorem movedFrom_next (h : 0 < p.line) : movedFrom base (p.next c) = (movedFrom base p).next c := by
  by_cases hc : c = '\n'
  · simp [movedFrom, next, hc, Nat.ne_of_gt h, Nat.add_assoc]
  · simp only [movedFrom, next, hc, if_false]
    split <;> rfl

theorem movedFrom_after (h : 0 < p.line) : movedFrom base (p.after s) = (movedFrom base p).after s := by
  induction s generalizing p with
  | nil => rfl
  | cons c s ih =>
    rw [after_cons, after_cons, ih (Nat.lt_of_lt_of_le h line_le_next), movedFrom_next h]

end ColorCensus.Position
