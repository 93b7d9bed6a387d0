import ColorCensus.Text.Digit

namespace ColorCensus.Css

open Text

structure Read (α : Type) where
  value : α
  width : Nat
  rest : Text

namespace Read

def map (f : α → β) (r : Read α) : Read β := ⟨f r.value, r.width, r.rest⟩

def widen (n : Nat) (r : Read α) : Read α := { r with width := r.width + n }

def Spans (r : Read α) (s : Text) : Prop := r.width + r.rest.length = s.length

theorem Spans.map {r : Read α} {s : Text} (h : r.Spans s) (f : α → β) : (r.map f).Spans s := h

theorem Spans.widen {r : Read α} {s t : Text} {n : Nat} (h : r.Spans s)
    (ht : t.length = s.length + n) : (r.widen n).Spans t := by
  simp only [Spans, Read.widen] at h ⊢
  omega

theorem Spans.rest_length_le {r : Read α} {s : Text} (h : r.Spans s) :
    r.rest.length ≤ s.length := by
  simp only [Spans] at h
  omega

theorem Spans.rest_length_lt {r : Read α} {s : Text} (h : r.Spans s) (hw : r.width ≠ 0) :
    r.rest.length < s.length := by
  simp only [Spans] at h
  omega

def run (limit : Nat) (p : CodePoint → Bool) (s : Text) : Read Text :=
  ⟨(takeRun limit p s).1, (takeRun limit p s).1.length, (takeRun limit p s).2⟩

theorem run_spans (limit : Nat) (p : CodePoint → Bool) (s : Text) : (run limit p s).Spans s := by
  have h := congrArg List.length (takeRun_append limit p s)
  rwa [List.length_append] at h

def runAll (p : CodePoint → Bool) (s : Text) : Read Text :=
  ⟨s.takeWhile p, (s.takeWhile p).length, s.dropWhile p⟩

theorem runAll_spans (p : CodePoint → Bool) (s : Text) : (runAll p s).Spans s := by
  have h := congrArg List.length (List.takeWhile_append_dropWhile (p := p) (l := s))
  rwa [List.length_append] at h

end Read

end ColorCensus.Css
