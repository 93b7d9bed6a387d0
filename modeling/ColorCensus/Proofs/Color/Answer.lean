import ColorCensus.Proofs.Color.Candidate
import ColorCensus.Proofs.Css.Lexing
import ColorCensus.Proofs.Css.Outline
import ColorCensus.Proofs.Text.Strip
import ColorCensus.Tally

namespace ColorCensus

open Text Css CodePoint

variable {c : CodePoint} {s t head word plain : Text} {previous : Option CodePoint} {l : Lexeme}
  {p : Position}

namespace Candidate

def heads : List Text := [char '#'] :: functionHeads

end Candidate

namespace Color

structure IsHead (head : Text) : Prop where
  ascii : ∀ c ∈ head, isAscii c = true
  lower : head.map CodePoint.toLower = head
  first : ∃ c r, head = c :: r ∧ isBlank c = false
  last : ∃ c, head.getLast? = some c ∧ isBlank c = false
  clean : ∀ s, Css.clean (head ++ s) = head ++ Css.clean s

theorem IsHead.exists_prepared (h : IsHead head) (s : Text) :
    ∃ r, Text.lower (strip (head ++ s)) = head ++ r := by
  obtain ⟨c, r, hc, hb⟩ := h.first
  obtain ⟨d, hd, hbd⟩ := h.last
  have hdrop : (head ++ s).dropWhile isBlank = head ++ s := by
    rw [hc, List.cons_append, List.dropWhile_cons_of_neg (by simp [hb])]
  have hstrip : strip (head ++ s) = head ++ dropTrailing isBlank s := by
    rw [strip, hdrop, dropTrailing_append_of_last]
    rw [hd]
    rintro e ⟨⟩
    exact hbd
  refine ⟨lowerAfter (head.reverse ++ []) (dropTrailing isBlank s), ?_⟩
  rw [hstrip, Text.lower, lowerAfter_append_of_isAscii h.ascii, h.lower]

structure Begins (l : Lexeme) : Prop where
  closing : ∀ b, l ≠ .closes b
  space : ∀ text, l ≠ .token (.space text)
  name : ∀ name, l = .opensFunction name → asciiLower name ≠ "color"

theorem Begins.isSpace {n : Node} (hl : Begins l) (h : n.beginning = (p, l)) : n.isSpace = false := by
  cases n with
  | token p t =>
    cases t with
    | space text => exact absurd (Prod.mk.inj h).2.symm (hl.space text)
    | _ => rfl
  | function p name arguments closed => rfl
  | block p b content closed => rfl

theorem Begins.nodeShade {n : Node} (hl : Begins l) (h : n.beginning = (p, l)) :
    ∃ shade, nodeShade n = .ok shade := by
  cases n with
  | token p t => cases t <;> exact ⟨_, rfl⟩
  | function p name arguments closed =>
    rw [Color.nodeShade, if_neg (hl.name name (Prod.mk.inj h).2.symm)]
    exact ⟨_, rfl⟩
  | block p b content closed => exact ⟨_, rfl⟩

theorem shade_of_begins {ls : List (Position × Lexeme)} (hls : lexemesFrom .start (clean s) = (.start, l) :: ls)
    (hl : Begins l) : shade s = .ok none ∨ ∃ n : Node, n.beginning = (.start, l) ∧ shade s = nodeShade n := by
  obtain ⟨n, ns, hn, hbegin⟩ : ∃ n ns, Node.ofLexemes ((.start, l) :: ls) = n :: ns ∧ n.beginning = (.start, l) :=
    Node.outline_ofLexemes hl.closing
  have hread : Node.read s = n :: ns := by
    rw [Node.read, lexemes, hls, hn]
  rw [shade, hread, List.filter_cons_of_pos (by simp [hl.isSpace hbegin])]
  split
  · next m hm =>
    rw [← (List.cons.inj hm).1]
    exact .inr ⟨n, hbegin, rfl⟩
  · exact .inl rfl

theorem exists_shade (h : IsHead head)
    (hlex : ∀ p u, ∃ l ls, lexemesFrom p (head ++ u) = (p, l) :: ls ∧ Begins l) (s : Text) :
    ∃ r, shade (head ++ s) = .ok r := by
  obtain ⟨l, ls, hls, hl⟩ := hlex .start (clean s)
  rw [← h.clean] at hls
  rcases shade_of_begins hls hl with hnone | ⟨n, hbegin, hn⟩
  · exact ⟨none, hnone⟩
  · rw [hn]
    exact hl.nodeShade hbegin

theorem lexemesFrom_functionHead (h : head ∈ Candidate.functionHeads) (p : Position) (u : Text) :
    ∃ l ls, lexemesFrom p (head ++ u) = (p, l) :: ls ∧ Begins l := by
  have hname {c : CodePoint} {t : Text} (ht : ∀ d ∈ c :: t, isNameChar d = true)
      (hc : isNameStart c = true ∧ c ≠ char 'u' ∧ c ≠ char 'U') (hu : asciiLower (c :: t) ≠ "url")
      (hn : asciiLower (c :: t) ≠ "color") :
      ∃ l ls, lexemesFrom p (c :: t ++ char '(' :: u) = (p, l) :: ls ∧ Begins l :=
    ⟨_, _, lexemesFrom_function ht hc hu, nofun, nofun, fun name h => by cases h; exact hn⟩
  simp only [Candidate.functionHeads, List.mem_cons, List.not_mem_nil, or_false] at h
  rcases h with rfl | rfl | rfl | rfl
  · exact hname (c := 'r') (t := "gba") (by decide) (by decide) (by decide) (by decide)
  · exact hname (c := 'h') (t := "sla") (by decide) (by decide) (by decide) (by decide)
  · exact hname (c := 'r') (t := "gb") (by decide) (by decide) (by decide) (by decide)
  · exact hname (c := 'h') (t := "sl") (by decide) (by decide) (by decide) (by decide)

theorem readMark_hash (u : Text) : ∃ t w r, readMark '#' u = ⟨[.token t], w, r⟩ ∧ ∀ s, t ≠ .space s := by
  unfold readMark
  split
  · next h => exact absurd h.1 (by decide)
  · split
    · exact ⟨_, _, _, rfl, nofun⟩
    · iterate 5
        split
        · next h => exact absurd h (by simp)
      exact ⟨_, _, _, rfl, nofun⟩

theorem nextLexemes_hash (u : Text) : nextLexemes '#' u = (readMark '#' u).widen 1 :=
  nextLexemes_mark (by decide) ⟨rfl, rfl⟩ rfl

theorem lexemesFrom_hash (p : Position) (u : Text) :
    ∃ l ls, lexemesFrom p ([char '#'] ++ u) = (p, l) :: ls ∧ Begins l := by
  obtain ⟨t, w, r, hm, ht⟩ := readMark_hash u
  rw [List.singleton_append, lexemesFrom_cons, nextLexemes_hash, hm]
  refine ⟨_, _, rfl, fun b h => ?_, fun s h => ht s (Lexeme.token.inj h), fun name h => ?_⟩
  · cases h
  · cases h

theorem isHead_of_mem (h : head ∈ Candidate.heads) : IsHead head := by
  simp only [Candidate.heads, Candidate.functionHeads, List.mem_cons, List.not_mem_nil, or_false] at h
  rcases h with rfl | rfl | rfl | rfl | rfl <;>
    exact ⟨by decide, by decide, ⟨_, _, rfl, by decide⟩, ⟨_, rfl, by decide⟩, fun _ => rfl⟩

theorem lexemesFrom_head (h : head ∈ Candidate.heads) (p : Position) (u : Text) :
    ∃ l ls, lexemesFrom p (head ++ u) = (p, l) :: ls ∧ Begins l := by
  rcases List.mem_cons.mp h with rfl | h
  · exact lexemesFrom_hash p u
  · exact lexemesFrom_functionHead h p u

theorem read_head_append (h : head ∈ Candidate.heads) (s : Text) : ∃ c, read (head ++ s) = .ok c := by
  obtain ⟨r, hr⟩ := (isHead_of_mem h).exists_prepared s
  obtain ⟨x, hx⟩ := exists_shade (isHead_of_mem h) (lexemesFrom_head h) r
  have hmark : (startsWith [char '#'] (head ++ r) || (head ++ r).contains '(') = true := by
    simp only [Candidate.heads, Candidate.functionHeads, List.mem_cons, List.not_mem_nil, or_false] at h
    rcases h with rfl | rfl | rfl | rfl | rfl <;> rfl
  have h0 : head ++ r ≠ [] := by
    obtain ⟨c, t, hc, -⟩ := (isHead_of_mem h).first
    simp [hc]
  rw [read, hr, if_neg h0, if_pos hmark, hx]
  exact ⟨_, rfl⟩

theorem unmarked (h : ∀ c ∈ s, c ≠ char '#' ∧ c ≠ char '(') :
    (startsWith [char '#'] s || s.contains '(') = false := by
  rw [Bool.or_eq_false_iff]
  constructor
  · cases s with
    | nil => rfl
    | cons c r => simpa [startsWith, List.isPrefixOf] using Ne.symm (h c List.mem_cons_self).1
  · simpa using fun hm => (h _ hm).2 rfl

theorem read_word (h : ∀ c ∈ s, c.isAlpha = true) : ∃ c, read s = .ok c := by
  have hletter (c : CodePoint) (hc : c ∈ strip s) : isAscii c = true ∧ c.toLower ∈ block 97 26 := by
    rcases isAlpha_cases (h c (mem_of_mem_strip hc)) with hm | hm
    · exact ⟨(show ∀ c ∈ capitals, isAscii c = true from by decide) c hm, toLower_mem_block hm⟩
    · exact (show ∀ c ∈ block 97 26, isAscii c = true ∧ c.toLower ∈ block 97 26 from by decide) c hm
  have hlower : ∀ c ∈ Text.lower (strip s), c ≠ '#' ∧ c ≠ '(' := by
    intro c hc
    rw [lower_of_isAscii fun c hc => (hletter c hc).1] at hc
    obtain ⟨d, hd, rfl⟩ := List.mem_map.mp hc
    exact (show ∀ c ∈ block 97 26, c ≠ '#' ∧ c ≠ '(' from by decide) _ (hletter d hd).2
  unfold read
  dsimp only
  rw [unmarked hlower]
  split
  · exact ⟨_, rfl⟩
  · rw [if_neg Bool.false_ne_true]
    split <;> exact ⟨_, rfl⟩

theorem exists_normalize_of_mem_tokens (h : word ∈ Candidate.tokens s) :
    ∃ c, normalize word = .ok c := by
  have hread : ∃ c, read word = .ok c := by
    cases Candidate.isSpelling_of_mem_tokens h with
    | call head arguments hh =>
      rw [List.append_assoc]
      exact read_head_append (List.mem_cons_of_mem _ hh) (arguments ++ [char ')'])
    | hash digits => exact read_head_append List.mem_cons_self digits
    | word letters hs => exact read_word hs
  obtain ⟨c, hc⟩ := hread
  exact ⟨_, by rw [normalize, hc]; rfl⟩

end Color

end ColorCensus
