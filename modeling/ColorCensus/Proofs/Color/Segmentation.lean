import ColorCensus.Proofs.Color.Candidate
import ColorCensus.Proofs.Text.Case
import ColorCensus.Proofs.Text.Pattern

namespace ColorCensus

open Text CodePoint

namespace Pattern

def isArgument (c : CodePoint) : Bool := c != char ')'

def call : Pattern :=
  both (either (literal "rgb") (literal "hsl")) (both (either (literal "a") nothing)
    (both (literal "(") (both (run isArgument) (literal ")"))))

def hash (digits : Pattern) : Pattern := both (literal "#") digits

def word : Pattern := both edge (both (run isAlpha) (both edge (notBefore '-')))

def color : Pattern :=
  either call (either (hash (times isHex 8)) (either (hash (times isHex 6))
    (either (hash (either (times isHex 4) (times isHex 3))) word)))

variable {p q r : Pattern} {before s : Text} {n : ℕ}

open Candidate

def found (n : ℕ) : List ℕ := if n = 0 then [] else [n]

theorem ways_run_eq_nil {f : CodePoint → Bool} (h : ∀ c ∈ s.head?, f c = false) : (run f).ways before s = [] := by
  cases s with
  | nil => rfl
  | cons c s => rw [ways, List.takeWhile_cons_of_neg (by simp [h c rfl])]; rfl

theorem ways_arguments : (both (run isArgument) (literal ")")).ways before s = found (argumentsLength s) := by
  obtain ⟨u, v, rfl, hu, hv⟩ := exists_run isArgument s
  have hclosing : ∀ c ∈ v.head?, c = char ')' := fun c hc => by simpa [isArgument] using hv c hc
  cases u with
  | nil =>
    rw [List.nil_append, ways_both_of_eq_nil (ways_run_eq_nil hv), argumentsLength_of_head? hclosing]
    rfl
  | cons c u =>
    have hinside (b : CodePoint) (before : Text) (c : CodePoint) (s : Text) (_ : isArgument b = true)
        (hc : isArgument c = true) : (literal ")").ways (b :: before) (c :: s) = [] := by
      have hne : c ≠ char ')' := by simpa [isArgument] using hc
      rw [ways_literal, if_neg]
      simpa [startsWith, ofString] using Ne.symm hne
    rw [ways_both_run hinside hu (List.cons_ne_nil c u) hv, ways_literal]
    cases v with
    | nil =>
      rw [List.append_nil, argumentsLength_of_not_mem fun d hd => by simpa [isArgument] using hu d hd]
      rfl
    | cons d v =>
      obtain rfl := hclosing d rfl
      rw [argumentsLength_append (fun d hd => by simpa [isArgument] using hu d hd) (List.cons_ne_nil c u)]
      rfl

theorem ways_call_head (head : Text) : (both (literal head) (both (run isArgument) (literal ")"))).ways before s =
    if startsWith head s then (found (argumentsLength (s.drop head.length))).map (head.length + ·) else [] := by
  split
  · next h =>
    obtain ⟨r, rfl⟩ := startsWith_iff.mp h
    rw [ways_both_literal_append, ways_arguments, List.drop_left]
  · next h => exact ways_both_literal_eq_nil (by simpa using h)

theorem ways_both_congr (h : ∀ before s, q.ways before s = r.ways before s) :
    (both p q).ways before s = (both p r).ways before s := by
  simp only [ways, h]

theorem ways_call_name (name : Text) (q : Pattern) :
    (both (literal name) (both (either (literal "a") nothing) (both (literal "(") q))).ways before s =
      (both (literal (name ++ ofString "a(")) q).ways before s ++
        (both (literal (name ++ ofString "(")) q).ways before s := by
  have heither : ∀ before s, (both (either (literal "a") nothing) (both (literal "(") q)).ways before s =
      (either (both (literal "a") (both (literal "(") q)) (both (literal []) (both (literal "(") q))).ways before s :=
    fun _ _ => ways_both_either
  rw [ways_both_congr heither, ways_literal_either, ways_literal_literal, ways_literal_literal,
    ways_literal_literal, ways_literal_literal, List.append_nil, List.append_assoc]
  rfl

def callHeads : List Text := ["rgba(", "rgb(", "hsla(", "hsl("]

theorem ways_call_eq_flatMap : call.ways before s = callHeads.flatMap fun head =>
    if startsWith head s then (found (argumentsLength (s.drop head.length))).map (head.length + ·) else [] := by
  rw [call, ways_both_either, ways_call_name, ways_call_name, ways_call_head, ways_call_head, ways_call_head,
    ways_call_head, List.append_assoc]
  simp only [callHeads, List.flatMap_cons, List.flatMap_nil, List.append_nil]
  rfl

theorem head_unique {head head' : Text} (h : head ∈ functionHeads) (h' : head' ∈ functionHeads)
    (hs : startsWith head s = true) (hs' : startsWith head' s = true) : head' = head := by
  obtain ⟨r, rfl⟩ := startsWith_iff.mp hs
  obtain ⟨r', hr⟩ := startsWith_iff.mp hs'
  have hfind := find?_startsWith (s := r) h
  rw [hr, find?_startsWith h'] at hfind
  exact Option.some.inj hfind

theorem found_of_ne_zero (h : n ≠ 0) : found n = [n] := if_neg h

theorem ways_call : call.ways before s = found (functionLength s) := by
  have hperm : callHeads.Perm functionHeads := by decide
  rw [ways_call_eq_flatMap]
  cases hf : functionHeads.find? (startsWith · s) with
  | none =>
    have hzero : functionLength s = 0 := by rw [functionLength, hf]
    rw [hzero]
    refine List.flatMap_eq_nil_iff.mpr fun head hm => if_neg ?_
    exact List.find?_eq_none.mp hf head (hperm.mem_iff.mp hm)
  | some head =>
    have hm : head ∈ functionHeads := List.mem_of_find?_eq_some hf
    have hs : startsWith head s = true := List.find?_some (p := (startsWith · s)) hf
    -- the heads begin differently, so that a text has one of them at most
    obtain ⟨l, r, hl⟩ := List.append_of_mem (hperm.mem_iff.mpr hm)
    have hnodup : (l ++ head :: r).Nodup := hl ▸ (show callHeads.Nodup by decide)
    have hhead : head ∉ l ++ r := (List.nodup_cons.mp (List.perm_middle.nodup_iff.mp hnodup)).1
    have hothers {heads : List Text} (hsub : heads ⊆ l ++ r) :
        (heads.flatMap fun head => if startsWith head s then
          (found (argumentsLength (s.drop head.length))).map (head.length + ·) else []) = [] := by
      refine List.flatMap_eq_nil_iff.mpr fun head' hm' => if_neg fun hs' => hhead ?_
      have hcall : head' ∈ callHeads := by
        rw [hl, List.perm_middle.mem_iff]
        exact List.mem_cons_of_mem head (hsub hm')
      exact head_unique hm (hperm.mem_iff.mp hcall) hs hs' ▸ hsub hm'
    rw [hl, List.flatMap_append, List.flatMap_cons, if_pos hs, hothers (List.subset_append_left l r),
      hothers (List.subset_append_right l r), List.nil_append, List.append_nil, functionLength, hf]
    dsimp only
    split
    · next h => rw [h]; rfl
    · next h =>
      rw [found_of_ne_zero h, List.map_singleton, found_of_ne_zero fun hz => h (Nat.add_eq_zero_iff.mp hz).2]

theorem ways_hash (q : Pattern) (s : Text) :
    (hash q).ways before (char '#' :: s) = (q.ways (char '#' :: before) s).map (1 + ·) :=
  ways_both_literal_append (ofString "#") q

theorem ways_hash_eq_nil (h : ∀ c ∈ s.head?, c ≠ char '#') (q : Pattern) : (hash q).ways before s = [] := by
  refine ways_both_literal_eq_nil ((Bool.eq_false_iff ..).mpr fun hs => ?_)
  obtain ⟨r, rfl⟩ := startsWith_iff.mp hs
  exact h (char '#') rfl rfl

theorem head?_ways_hash : ((either (hash (times isHex 8)) (either (hash (times isHex 6))
    (either (hash (either (times isHex 4) (times isHex 3))) q))).ways before s).head? =
      (found (hashLength s)).head?.or (q.ways before s).head? := by
  by_cases h : s.head? = some (char '#')
  · obtain ⟨t, rfl⟩ := List.head?_eq_some_iff.mp h
    rw [ways, ways, ways, ways_hash, ways_hash, ways_hash, ways, ways_times, ways_times, ways_times, ways_times,
      hashLength, digitsTaken]
    generalize (t.takeWhile isHex).length = n
    by_cases h8 : 8 ≤ n
    · simp [h8, found]
    · by_cases h6 : 6 ≤ n
      · simp [h8, h6, found]
      · by_cases h4 : 4 ≤ n
        · simp [h8, h6, h4, found]
        · by_cases h3 : n = 3
          · simp [h3, found]
          · simp [h8, h6, h4, h3, found, show ¬ 3 ≤ n by omega]
  · have hne : ∀ c ∈ s.head?, c ≠ char '#' := fun c hc hcs => h (hcs ▸ hc)
    rw [ways, ways, ways, ways_hash_eq_nil hne, ways_hash_eq_nil hne, ways_hash_eq_nil hne,
      hashLength_of_head? hne]
    rfl

theorem ways_edge_of_isWord {c d : CodePoint} (hc : isWord c = true) (hd : isWord d = true) :
    (both edge q).ways (c :: before) (d :: s) = [] :=
  ways_both_of_eq_nil (by simp [ways, hc, hd])

theorem ways_wordEnd {c : CodePoint} (hc : isWord c = true) : (both edge (notBefore '-')).ways (c :: before) s =
    if s.head?.all isWordEnd then [0] else [] := by
  cases s with
  | nil =>
    have hedge : edge.ways (c :: before) [] = [0] := by simp [ways, hc]
    rw [ways_both_of_singleton hedge]
    rfl
  | cons d s =>
    cases hd : isWord d with
    | true => rw [ways_edge_of_isWord hc hd, List.head?_cons, Option.all_some, isWordEnd, hd]; rfl
    | false =>
      have hedge : edge.ways (c :: before) (d :: s) = [0] := by simp [ways, hc, hd]
      rw [ways_both_of_singleton hedge]
      by_cases hm : d = char '-'
      · simp [ways, isWordEnd, hm]
      · simp [ways, isWordEnd, hd, hm]

theorem ways_word : word.ways before s = found (wordLength before.head? s) := by
  obtain ⟨u, v, rfl, hu, hv⟩ := exists_run isAlpha s
  rw [wordLength_append hu hv, word]
  cases u with
  | nil =>
    have hnone (before : Text) : (both (run isAlpha) (both edge (notBefore '-'))).ways before v = [] :=
      ways_both_of_eq_nil (ways_run_eq_nil hv)
    have hfound : found (if before.head?.any isWord then 0 else if v.head?.all isWordEnd then 0 else 0) = [] := by
      simp [found]
    rw [List.length_nil, hfound]
    refine List.flatMap_eq_nil_iff.mpr fun n hn => ?_
    obtain rfl : n = 0 := by
      rw [ways] at hn
      split at hn
      · cases hn
      · exact List.mem_singleton.mp hn
    rw [List.drop_zero, List.nil_append, hnone, List.map_nil]
  | cons c u =>
    have hc : isWord c = true := isWord_of_isAlpha (hu c List.mem_cons_self)
    cases hb : before.head?.any isWord with
    | true =>
      have hedge : edge.ways before (c :: u ++ v) = [] := by simp [ways, hb, hc]
      rw [ways_both_of_eq_nil hedge]
      rfl
    | false =>
      have hedge : edge.ways before (c :: u ++ v) = [0] := by simp [ways, hb, hc]
      have hinside (b : CodePoint) (before : Text) (c : CodePoint) (s : Text) (hb : isAlpha b = true)
          (hc : isAlpha c = true) : (both edge (notBefore '-')).ways (b :: before) (c :: s) = [] :=
        ways_edge_of_isWord (isWord_of_isAlpha hb) (isWord_of_isAlpha hc)
      obtain ⟨d, r, hr⟩ := List.exists_cons_of_ne_nil (List.reverse_ne_nil_iff.mpr (List.cons_ne_nil c u))
      have hd : isAlpha d = true := hu d (List.mem_reverse.mp (hr ▸ List.mem_cons_self))
      rw [ways_both_of_singleton hedge, List.drop_zero, List.take_zero, List.reverse_nil, List.nil_append,
        ways_both_run hinside hu (List.cons_ne_nil c u) hv, hr, List.cons_append, ways_wordEnd (isWord_of_isAlpha hd)]
      cases v.head?.all isWordEnd with
      | true => simp [found]
      | false => rfl

theorem head?_ways_color : (color.ways before s).head? = (found (length before.head? s)).head? := by
  rw [color, ways, List.head?_append, head?_ways_hash, ways_call, ways_word, length]
  cases functionLength s with
  | succ n => rfl
  | zero =>
    cases hashLength s with
    | succ n => rfl
    | zero => rfl

end Pattern

namespace Candidate

variable {p : Pattern} {before s t plain piece : Text} {pieces : List Text} {c : CodePoint}

def IsUnmatched (p : Pattern) (before piece after : Text) : Prop :=
  ∀ u c v, piece = u ++ c :: v → p.ways (u.reverse ++ before) (c :: v ++ after) = []

inductive IsSegmentation (p : Pattern) : Text → Text → List Text → Prop where
  | last (before piece : Text) (h : IsUnmatched p before piece []) : IsSegmentation p before piece [piece]
  | cons (before piece word s : Text) (pieces : List Text) (hp : IsUnmatched p before piece (word ++ s))
    (hw : (p.ways (piece.reverse ++ before) (word ++ s)).head? = some word.length)
    (h : IsSegmentation p (word.reverse ++ (piece.reverse ++ before)) s pieces) :
    IsSegmentation p before (piece ++ (word ++ s)) (piece :: word :: pieces)

theorem length_eq_zero_iff : length before.head? s = 0 ↔ Pattern.color.ways before s = [] := by
  rw [← List.head?_eq_none_iff, Pattern.head?_ways_color, Pattern.found]
  split <;> simp_all

theorem length_eq_iff {n : ℕ} : (Pattern.color.ways before s).head? = some n ↔
    length before.head? s = n ∧ n ≠ 0 := by
  rw [Pattern.head?_ways_color, Pattern.found]
  split
  · next h => simp [h, eq_comm]
  · next h =>
    rw [List.head?_cons, Option.some_inj]
    exact ⟨fun hn => ⟨hn, hn ▸ h⟩, And.left⟩

theorem isUnmatched_nil (p : Pattern) (before after : Text) : IsUnmatched p before [] after := by
  intro u c v h
  simp at h

theorem isUnmatched_cons : IsUnmatched p before (c :: piece) t ↔
    p.ways before (c :: (piece ++ t)) = [] ∧ IsUnmatched p (c :: before) piece t := by
  constructor
  · intro h
    refine ⟨h [] c piece rfl, fun u d v hv => ?_⟩
    have hu := h (c :: u) d v (congrArg (c :: ·) hv)
    rwa [List.reverse_cons, List.append_assoc] at hu
  · rintro ⟨hc, h⟩ u d v hv
    cases u with
    | nil =>
      obtain ⟨rfl, rfl⟩ := List.cons.inj hv
      exact hc
    | cons b u =>
      obtain ⟨rfl, rfl⟩ := List.cons.inj hv
      rw [List.reverse_cons, List.append_assoc]
      exact h u d v rfl

theorem isUnmatched_concat (h : IsUnmatched p before piece (c :: t))
    (hc : p.ways (piece.reverse ++ before) (c :: t) = []) : IsUnmatched p before (piece ++ [c]) t := by
  induction piece generalizing before with
  | nil => exact isUnmatched_cons.mpr ⟨hc, isUnmatched_nil p (c :: before) t⟩
  | cons d piece ih =>
    obtain ⟨hd, hp⟩ := isUnmatched_cons.mp h
    rw [List.reverse_cons, List.append_assoc] at hc
    rw [List.cons_append, isUnmatched_cons, List.append_assoc]
    exact ⟨hd, ih hp hc⟩

theorem isSegmentation_segmentsFrom (h : IsUnmatched .color before plain.reverse s) :
    IsSegmentation .color before (plain.reverse ++ s) (segmentsFrom (plain ++ before).head? plain s) := by
  generalize hp : (plain ++ before).head? = previous
  induction previous, s using scan_induction generalizing before plain with
  | nil previous =>
    rw [List.append_nil, segmentsFrom_nil]
    exact .last before plain.reverse h
  | skip previous c t hl ih =>
    subst hp
    have hc := isUnmatched_concat h (by rwa [List.reverse_reverse, ← length_eq_zero_iff])
    rw [← List.reverse_cons] at hc
    have hs := ih hc rfl
    rwa [List.reverse_cons, List.append_assoc, List.singleton_append, ← segmentsFrom_skip hl] at hs
  | candidate previous word t hw hl ih =>
    subst hp
    rw [segmentsFrom_append hw.ne_nil hl]
    refine .cons before plain.reverse word t _ h ?_ ?_
    · rw [List.reverse_reverse, length_eq_iff]
      exact ⟨hl, (List.length_pos_iff.mpr hw.ne_nil).ne'⟩
    · have hlast : (word.reverse ++ (plain.reverse.reverse ++ before)).head? = word.getLast? := by
        rw [List.head?_append_of_ne_nil _ (List.reverse_ne_nil_iff.mpr hw.ne_nil), List.head?_reverse]
      have hnil : IsUnmatched .color (word.reverse ++ (plain.reverse.reverse ++ before)) ([] : Text).reverse t :=
        isUnmatched_nil _ _ _
      exact ih hnil hlast

theorem segmentsFrom_of_isUnmatched (h : IsUnmatched .color before piece s) :
    segmentsFrom before.head? plain (piece ++ s) =
      segmentsFrom (piece.reverse ++ before).head? (piece.reverse ++ plain) s := by
  induction piece generalizing before plain with
  | nil => rfl
  | cons c piece ih =>
    obtain ⟨hc, hp⟩ := isUnmatched_cons.mp h
    rw [List.cons_append, segmentsFrom_skip (length_eq_zero_iff.mpr hc), List.reverse_cons, List.append_assoc,
      List.append_assoc]
    exact ih hp

theorem IsSegmentation.eq_segmentsFrom (h : IsSegmentation .color before s pieces) :
    pieces = segmentsFrom before.head? [] s := by
  induction h with
  | last before piece h =>
    have hs : segmentsFrom before.head? [] (piece ++ []) = _ := segmentsFrom_of_isUnmatched h
    rw [List.append_nil, List.append_nil, segmentsFrom_nil, List.reverse_reverse] at hs
    exact hs.symm
  | cons before piece word s pieces hp hw h ih =>
    obtain ⟨hl, h0⟩ := length_eq_iff.mp hw
    have hword : word ≠ [] := List.length_pos_iff.mp (Nat.pos_of_ne_zero h0)
    rw [segmentsFrom_of_isUnmatched hp, List.append_nil, segmentsFrom_append hword hl, List.reverse_reverse, ih,
      List.head?_append_of_ne_nil _ (List.reverse_ne_nil_iff.mpr hword), List.head?_reverse]

theorem IsSegmentation.length_odd (h : IsSegmentation p before s pieces) : pieces.length % 2 = 1 := by
  induction h with
  | last => rfl
  | cons before piece word s pieces hp hw h ih =>
    rw [List.length_cons, List.length_cons]
    omega

theorem IsSegmentation.flatten (h : IsSegmentation p before s pieces) : pieces.flatten = s := by
  induction h with
  | last before piece => exact List.append_nil piece
  | cons before piece word s pieces hp hw h ih => rw [List.flatten_cons, List.flatten_cons, ih]

theorem getElem?_odds (pieces : List Text) (i : ℕ) : (odds pieces)[i]? = pieces[2 * i + 1]? := by
  fun_induction odds pieces generalizing i with
  | case1 piece word pieces ih =>
    cases i with
    | zero => rfl
    | succ i => exact ih i
  | case2 pieces h =>
    match pieces, h with
    | [], _ => rfl
    | [piece], _ => rfl
    | piece :: word :: pieces, h => exact absurd rfl (h piece word pieces)

theorem segments_leftmost (value : Text) :
    (∀ pieces, pieces = segments value ↔ IsSegmentation .color [] (value.filter (· ≠ boundary)) pieces) ∧
    (segments value).length % 2 = 1 ∧ (segments value).flatten = value.filter (· ≠ boundary) ∧
    ∀ i, (tokens value)[i]? = (segments value)[2 * i + 1]? := by
  have h : IsSegmentation .color [] (value.filter (· ≠ boundary)) (segments value) := by
    rw [segments_eq]
    have hnil : IsUnmatched .color [] ([] : Text).reverse (value.filter (· ≠ boundary)) := isUnmatched_nil _ _ _
    exact isSegmentation_segmentsFrom hnil
  refine ⟨fun pieces => ⟨fun hp => hp ▸ h, fun hp => ?_⟩, h.length_odd, h.flatten, getElem?_odds _⟩
  rw [segments_eq]
  exact hp.eq_segmentsFrom

end Candidate

end ColorCensus
