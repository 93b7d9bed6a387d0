import ColorCensus.Cli.Arguments
import ColorCensus.Proofs.Outcome
import Mathlib.Data.List.Induction
import Mathlib.Data.List.Infix

namespace ColorCensus.Cli

open Text CodePoint

variable {argument text value name : Text} {arguments rest : List Text} {a : Argument}
  {xs ys before after : List Argument} {g g' : Gathered} {options : Options} {s : Switch} {m : Misuse}

attribute [ext] Options

theorem Switch.matching_length_le (c : CodePoint) (text : Text) :
    (matching (char '-' :: char '-' :: c :: text)).length ≤ 1 := by
  have hhelp : startsWith (char '-' :: char '-' :: c :: text) help.long =
      (c == char 'h' && startsWith text "elp") := rfl
  have hjson : startsWith (char '-' :: char '-' :: c :: text) json.long =
      (c == char 'j' && startsWith text "son") := rfl
  have hdebug : startsWith (char '-' :: char '-' :: c :: text) debug.long =
      (c == char 'd' && startsWith text "ebug") := rfl
  simp only [matching, all, List.filter_cons, List.filter_nil, hhelp, hjson, hdebug]
  -- the letter behind the dashes tells the switches apart
  generalize startsWith text "elp" = x, startsWith text "son" = y, startsWith text "ebug" = z
  by_cases hh : c = char 'h'
  · subst hh
    revert x y z
    decide
  · rw [beq_eq_false_iff_ne.mpr hh]
    by_cases hj : c = char 'j'
    · subst hj
      revert x y z
      decide
    · rw [beq_eq_false_iff_ne.mpr hj]
      generalize (c == char 'd') = w
      revert w x y z
      decide

namespace Argument

def IsAmbiguous (argument : Text) : Prop :=
  ∃ value : Text, argument = char '-' :: char '-' :: char '=' :: value

theorem cut_cons {c : CodePoint} (h : c ≠ char '=') (text : Text) :
    (cut (c :: text)).1 = c :: (cut text).1 := by
  have hdrop : (c :: text).dropWhile (fun d => d ≠ char '=') = text.dropWhile fun d => d ≠ char '=' :=
    List.dropWhile_cons_of_pos (by simpa using h)
  have htake : (c :: text).takeWhile (fun d => d ≠ char '=') =
      c :: text.takeWhile fun d => d ≠ char '=' := List.takeWhile_cons_of_pos (by simpa using h)
  rw [cut, cut, hdrop, htake]
  split <;> rfl

theorem ofLong_eq_error {c : CodePoint} : ofLong (char '-' :: char '-' :: c :: text) = .error m ↔
    c = char '=' ∧ m = .ambiguous (char '-' :: char '-' :: c :: text) := by
  rw [ofLong, cut_cons (by decide), cut_cons (by decide)]
  by_cases h : c = char '='
  · subst h
    have hm : Switch.matching (char '-' :: char '-' :: (cut (char '=' :: text)).1) = Switch.all := rfl
    rw [hm]
    simp [Switch.all, eq_comm]
  · have hl := Switch.matching_length_le c (cut text).1
    rw [cut_cons h]
    split
    · simp [h]
    · simp [h]
    · next hnil hone =>
      cases hm : Switch.matching (char '-' :: char '-' :: c :: (cut text).1) with
      | nil => exact absurd hm hnil
      | cons s more =>
        cases more with
        | nil => exact absurd hm (hone s)
        | cons t more =>
          rw [hm] at hl
          simp at hl

theorem classify_eq_error (h : argument ≠ doubleDash) : classify argument = .error m ↔
    IsAmbiguous argument ∧ m = .ambiguous argument := by
  unfold classify
  split
  · next tail =>
    cases tail with
    | nil => exact absurd rfl h
    | cons c text =>
      rw [ofLong_eq_error]
      constructor
      · rintro ⟨rfl, rfl⟩
        exact ⟨⟨text, rfl⟩, rfl⟩
      · rintro ⟨⟨value, hv⟩, rfl⟩
        simp only [List.cons.injEq] at hv
        exact ⟨hv.2.2.1, rfl⟩
  · simp [IsAmbiguous]
  · next hd _ =>
    simp only [reduceCtorEq, false_iff]
    rintro ⟨⟨value, hv⟩, -⟩
    exact hd (List.cons.inj (List.cons.inj hv).2).1
  · next hd _ _ =>
    simp only [reduceCtorEq, false_iff]
    rintro ⟨⟨value, hv⟩, -⟩
    exact hd _ hv

def leading (arguments : List Text) : List Text := arguments.takeWhile (· ≠ doubleDash)

theorem readAll_cons (h : argument ≠ doubleDash) (arguments : List Text) :
    readAll (argument :: arguments) =
      (classify argument).bind fun a => (readAll arguments).map (a :: ·) := by
  rw [readAll, if_neg h]
  cases classify argument with
  | error m => rfl
  | ok a => cases readAll arguments <;> rfl

theorem exists_readAll_error_iff : (∃ m, readAll arguments = .error m) ↔
    ∃ argument ∈ leading arguments, IsAmbiguous argument := by
  induction arguments with
  | nil => simp [readAll, leading]
  | cons argument arguments ih =>
    by_cases h : argument = doubleDash
    · rw [readAll, if_pos h, leading, List.takeWhile_cons_of_neg (by simp [h])]
      simp
    · have hlead : leading (argument :: arguments) = argument :: leading arguments :=
        List.takeWhile_cons_of_pos (by simpa using h)
      rw [readAll_cons h, hlead]
      simp only [List.mem_cons, exists_eq_or_imp]
      rw [← ih]
      cases hc : classify argument with
      | error m => simp [Except.bind, ((classify_eq_error h).mp hc).1]
      | ok a =>
        have hna : ¬ IsAmbiguous argument := by
          intro ha
          rw [(classify_eq_error h).mpr ⟨ha, rfl⟩] at hc
          cases hc
        cases readAll arguments <;> simp [Except.bind, Except.map, hna]

theorem readAll_append (h : doubleDash ∉ arguments) (rest : List Text) :
    readAll (arguments ++ rest) =
      (readAll arguments).bind fun xs => (readAll rest).map (xs ++ ·) := by
  induction arguments with
  | nil => cases hr : readAll rest <;> simp [hr, readAll, Except.bind, Except.map]
  | cons argument arguments ih =>
    rw [List.mem_cons, not_or] at h
    rw [List.cons_append, readAll_cons (Ne.symm h.1), readAll_cons (Ne.symm h.1), ih h.2]
    cases classify argument with
    | error m => rfl
    | ok a =>
      cases readAll arguments with
      | error m => rfl
      | ok xs => cases readAll rest <;> rfl

theorem ofSwitch_ne_separator (s : Switch) (value : Option Text) : ofSwitch s value ≠ separator := by
  cases value <;> simp [ofSwitch]

theorem classify_ne_separator : classify argument ≠ .ok separator := by
  have hother (text : Text) : ofOther text ≠ separator := by
    unfold ofOther
    split <;> simp
  have htail (text : Text) : ofTail text ≠ separator := by
    unfold ofTail
    split
    · split <;> simp
    · simp
  unfold classify
  split
  · unfold ofLong
    split
    · simp [hother]
    · simp [ofSwitch_ne_separator]
    · simp
  · next tail => unfold ofShort; split <;> simp [htail]
  · simp [hother]
  · simp

theorem separator_not_mem_of_readAll (h : doubleDash ∉ arguments) (hx : readAll arguments = .ok xs) :
    separator ∉ xs := by
  induction arguments generalizing xs with
  | nil =>
    cases hx
    exact List.not_mem_nil
  | cons argument arguments ih =>
    rw [List.mem_cons, not_or] at h
    rw [readAll_cons (Ne.symm h.1), bind_eq_ok] at hx
    obtain ⟨a, ha, hx⟩ := hx
    obtain ⟨more, hmore, rfl⟩ := map_eq_ok.mp hx
    rw [List.mem_cons, not_or]
    refine ⟨?_, ih h.2 hmore⟩
    rintro rfl
    exact classify_ne_separator ha

def isFinal : Argument → Bool
  | switch .help => true
  | valued .. => true
  | _ => false

theorem isFinal_iff : a.isFinal = true ↔ a = switch .help ∨ ∃ s value, a = valued s value := by
  cases a with
  | switch s => cases s <;> simp [isFinal]
  | valued s value => simp [isFinal]
  | plain text => simp [isFinal]
  | unknown text => simp [isFinal]
  | separator => simp [isFinal]

def ending : Argument → Request
  | valued s value => .misuse (.valued s value)
  | _ => .help

def plain? : Argument → Option Text
  | plain text => some text
  | _ => none

def paths (xs : List Argument) : List Text := xs.filterMap plain?

theorem mem_paths : text ∈ paths xs ↔ plain text ∈ xs := by
  rw [paths, List.mem_filterMap]
  constructor
  · rintro ⟨a, ha, h⟩
    cases a <;> cases h
    exact ha
  · intro h
    exact ⟨plain text, h, rfl⟩

theorem paths_concat : paths (xs ++ [a]) = paths xs ++ a.plain?.toList := by
  rw [paths, List.filterMap_append]
  cases a <;> rfl

end Argument

namespace Gathered

open Argument

def place (g : Gathered) : Argument → Gathered
  | .plain text => g.addPlain text
  | .separator => g.addSeparator
  | .unknown text => g.addExtra text
  | .switch .json => g.addJson
  | .switch .debug => g.addDebug
  | .switch .help => { g with atPath := false }
  | .valued .. => { g with atPath := false }

def close (g : Gathered) : Request :=
  if g.extra = [] then .census g.options else .misuse (.unrecognized g.extra)

theorem request_eq (g : Gathered) (xs : List Argument) : g.request xs =
    match xs.find? isFinal with
    | some a => a.ending
    | none => (xs.foldl place g).close := by
  induction xs generalizing g with
  | nil => rfl
  | cons a xs ih =>
    cases a with
    | switch s => cases s <;> first | rfl | exact ih _
    | valued s value => rfl
    | plain text => exact ih _
    | unknown text => exact ih _
    | separator => exact ih _

end Gathered

def HasPath (xs : List Argument) : Prop := ∃ path, .plain path ∈ xs

def EndsAtPath (xs : List Argument) : Prop := ∃ path, xs.getLast? = some (.plain path)

def HasStrayDash (xs : List Argument) : Prop :=
  ∃ before, before ++ [.separator] <+: xs ∧ HasPath before ∧ ¬ EndsAtPath before

def HasExtra (xs : List Argument) : Prop :=
  (∃ text, .unknown text ∈ xs) ∨ 1 < (Argument.paths xs).length ∨ HasStrayDash xs

theorem hasPath_iff : HasPath xs ↔ Argument.paths xs ≠ [] := by
  rw [Ne, List.eq_nil_iff_forall_not_mem, not_forall_not]
  exact exists_congr fun path => Argument.mem_paths.symm

theorem endsAtPath_concat : EndsAtPath (xs ++ [a]) ↔ ∃ path, a = .plain path := by
  simp [EndsAtPath]

theorem hasStrayDash_concat : HasStrayDash (xs ++ [a]) ↔
    HasStrayDash xs ∨ a = .separator ∧ HasPath xs ∧ ¬ EndsAtPath xs := by
  simp only [HasStrayDash, List.prefix_concat_iff]
  constructor
  · rintro ⟨before, h | h, hb⟩
    · obtain ⟨rfl, ha⟩ := List.append_inj' h rfl
      exact .inr ⟨(List.cons.inj ha).1.symm, hb⟩
    · exact .inl ⟨before, h, hb⟩
  · rintro (⟨before, h, hb⟩ | ⟨rfl, hb⟩)
    · exact ⟨before, .inr h, hb⟩
    · exact ⟨xs, .inl rfl, hb⟩

def LacksPlace (xs : List Argument) : Argument → Prop
  | .plain _ => HasPath xs
  | .separator => HasPath xs ∧ ¬ EndsAtPath xs
  | .unknown _ => True
  | _ => False

theorem hasExtra_concat : HasExtra (xs ++ [a]) ↔ HasExtra xs ∨ LacksPlace xs a := by
  have hpath : HasPath xs ↔ 0 < (Argument.paths xs).length := by
    rw [hasPath_iff, List.length_pos_iff]
  rw [HasExtra, HasExtra, hasStrayDash_concat, Argument.paths_concat, List.length_append]
  cases a with
  | plain text =>
    have hlt : 1 < (Argument.paths xs).length + 1 ↔
        1 < (Argument.paths xs).length ∨ 0 < (Argument.paths xs).length := by omega
    rw [LacksPlace, hpath]
    simp [Argument.plain?, hlt]
    tauto
  | separator => simp [Argument.plain?, LacksPlace, or_assoc]
  | unknown text => simp [LacksPlace]
  | switch s => simp [Argument.plain?, LacksPlace]
  | valued s value => simp [Argument.plain?, LacksPlace]

theorem paths_concat_of_none (h : a.plain? = none) :
    Argument.paths (xs ++ [a]) = Argument.paths xs := by
  rw [Argument.paths_concat, h, Option.toList_none, List.append_nil]

structure Placed (xs : List Argument) (g : Gathered) : Prop where
  extra : g.extra = [] ↔ ¬ HasExtra xs
  path : g.options.path = (Argument.paths xs).head?
  json : g.options.json = true ↔ .switch .json ∈ xs
  debug : g.options.debug = true ↔ .switch .debug ∈ xs
  -- a second path may stand last, but then it is extra
  atPath : g.extra = [] → (g.atPath = true ↔ EndsAtPath xs)

namespace Placed

theorem start : Placed [] .start := by
  constructor <;> simp [Gathered.start, HasExtra, HasStrayDash, EndsAtPath, Argument.paths]

theorem path_eq_none (h : Placed xs g) : g.options.path = none ↔ ¬ HasPath xs := by
  rw [h.path, List.head?_eq_none_iff, hasPath_iff, not_not]

theorem addExtra (h : Placed xs g) (hx : HasExtra (xs ++ [a]))
    (hp : (Argument.paths (xs ++ [a])).head? = (Argument.paths xs).head?) (hs : ∀ s, a ≠ .switch s)
    (text : Text) : Placed (xs ++ [a]) (g.addExtra text) := by
  have hmem (s : Switch) : Argument.switch s ∈ xs ++ [a] ↔ .switch s ∈ xs := by
    rw [List.mem_append, List.mem_singleton, or_iff_left (hs s).symm]
  refine ⟨?_, ?_, ?_, ?_, ?_⟩
  · simp [hx, Gathered.addExtra]
  · rw [hp]
    exact h.path
  · rw [hmem]
    exact h.json
  · rw [hmem]
    exact h.debug
  · simp [Gathered.addExtra]

theorem addPlain (h : Placed xs g) (text : Text) :
    Placed (xs ++ [.plain text]) (g.addPlain text) := by
  rw [Gathered.addPlain]
  split
  · next hnone =>
    have hno : ¬ HasPath xs := h.path_eq_none.mp hnone
    have hnil : Argument.paths xs = [] := by
      rw [hasPath_iff, not_not] at hno
      exact hno
    refine ⟨?_, ?_, ?_, ?_, ?_⟩
    · rw [hasExtra_concat, LacksPlace, or_iff_left hno]
      exact h.extra
    · rw [Argument.paths_concat, hnil]
      rfl
    · simpa using h.json
    · simpa using h.debug
    · simp [endsAtPath_concat]
  · next path hsome =>
    have hpath : HasPath xs := by
      rw [← not_not (a := HasPath xs), ← h.path_eq_none, hsome]
      simp
    have hx : HasExtra (xs ++ [.plain text]) := hasExtra_concat.mpr (.inr hpath)
    refine h.addExtra hx ?_ (by simp) text
    rw [Argument.paths_concat, List.head?_append_of_ne_nil _ (hasPath_iff.mp hpath)]

theorem keep {json debug : Bool} (h : Placed xs g) (ha : LacksPlace xs a → HasExtra xs)
    (hp : a.plain? = none) (hjson : json = true ↔ g.options.json = true ∨ a = .switch .json)
    (hdebug : debug = true ↔ g.options.debug = true ∨ a = .switch .debug) :
    Placed (xs ++ [a]) ⟨⟨g.options.path, json, debug⟩, g.extra, false⟩ := by
  refine ⟨?_, ?_, ?_, ?_, ?_⟩
  · rw [hasExtra_concat, or_iff_left_of_imp ha]
    exact h.extra
  · rw [paths_concat_of_none hp]
    exact h.path
  · rw [hjson, h.json, List.mem_append, List.mem_singleton, eq_comm (a := a)]
  · rw [hdebug, h.debug, List.mem_append, List.mem_singleton, eq_comm (a := a)]
  · intro
    rw [endsAtPath_concat]
    constructor
    · rintro ⟨⟩
    · rintro ⟨path, rfl⟩
      cases hp

theorem addSeparator (h : Placed xs g) : Placed (xs ++ [.separator]) g.addSeparator := by
  have hlacks : LacksPlace xs .separator ↔ g.options.path ≠ none ∧ ¬ EndsAtPath xs := by
    rw [LacksPlace, Ne, h.path_eq_none, not_not]
  by_cases hkeep : g.options.path = none ∨ g.atPath = true
  · have hadd : g.addSeparator = { g with atPath := false } := if_pos (by simpa using hkeep)
    rw [hadd]
    refine h.keep (fun hl => ?_) rfl (by simp) (by simp)
    rw [← not_not (a := HasExtra xs), ← h.extra]
    intro hnil
    rw [hlacks, ← h.atPath hnil] at hl
    exact hkeep.elim hl.1 hl.2
  · have hadd : g.addSeparator = g.addExtra Argument.doubleDash := if_neg (by simpa using hkeep)
    rw [hadd]
    rw [not_or] at hkeep
    refine h.addExtra (hasExtra_concat.mpr ?_) (by rw [paths_concat_of_none rfl]) (by simp) _
    -- where the path stands is known only as long as nothing is extra
    by_cases hx : HasExtra xs
    · exact .inl hx
    · exact .inr (hlacks.mpr ⟨hkeep.1, fun he => hkeep.2 ((h.atPath (h.extra.mpr hx)).mpr he)⟩)

theorem place (h : Placed xs g) (a : Argument) : Placed (xs ++ [a]) (g.place a) := by
  cases a with
  | plain text => exact h.addPlain text
  | separator => exact h.addSeparator
  | unknown text =>
    have hx : HasExtra (xs ++ [.unknown text]) := hasExtra_concat.mpr (.inr trivial)
    exact h.addExtra hx (by rw [paths_concat_of_none rfl]) (by simp) text
  | switch s => cases s <;> exact h.keep False.elim rfl (by simp) (by simp)
  | valued s value => exact h.keep False.elim rfl (by simp) (by simp)

theorem of_foldl (xs : List Argument) : Placed xs (xs.foldl Gathered.place .start) := by
  induction xs using List.reverseRecOn with
  | nil => exact .start
  | append_singleton xs a ih =>
    rw [List.foldl_append]
    exact ih.place a

end Placed

def IsMisuse (arguments : List Text) : Prop :=
  (∃ argument ∈ Argument.leading arguments, Argument.IsAmbiguous argument) ∨
    ∃ xs, Argument.readAll arguments = .ok xs ∧
      ((∃ s value, xs.find? Argument.isFinal = some (.valued s value)) ∨
        xs.find? Argument.isFinal = none ∧ HasExtra xs)

def CallsForHelp (arguments : List Text) : Prop :=
  ∃ xs, Argument.readAll arguments = .ok xs ∧ xs.find? Argument.isFinal = some (.switch .help)

def IsCall (arguments : List Text) (options : Options) : Prop :=
  ∃ xs, Argument.readAll arguments = .ok xs ∧ xs.find? Argument.isFinal = none ∧ ¬ HasExtra xs ∧
    options.path = (Argument.paths xs).head? ∧ (options.json = true ↔ .switch .json ∈ xs) ∧
      (options.debug = true ↔ .switch .debug ∈ xs)

namespace Request

theorem ofArguments_of_readAll (h : Argument.readAll arguments = .ok xs) : ofArguments arguments =
    match xs.find? Argument.isFinal with
    | some a => a.ending
    | none => (xs.foldl Gathered.place .start).close := by
  rw [ofArguments, h]
  exact Gathered.request_eq _ _

theorem exists_misuse (h : IsMisuse arguments) : ∃ m, ofArguments arguments = .misuse m := by
  obtain h | ⟨xs, hr, h⟩ := h
  · obtain ⟨m, hm⟩ := Argument.exists_readAll_error_iff.mpr h
    exact ⟨m, by rw [ofArguments, hm]⟩
  · rw [ofArguments_of_readAll hr]
    obtain ⟨s, value, hf⟩ | ⟨hf, hx⟩ := h
    · rw [hf]
      exact ⟨_, rfl⟩
    · rw [hf]
      have hne := mt (Placed.of_foldl xs).extra.mp (not_not.mpr hx)
      exact ⟨_, if_neg hne⟩

theorem eq_help (h : CallsForHelp arguments) : ofArguments arguments = .help := by
  obtain ⟨xs, hr, hf⟩ := h
  rw [ofArguments_of_readAll hr, hf]
  rfl

theorem eq_census (h : IsCall arguments options) : ofArguments arguments = .census options := by
  obtain ⟨xs, hr, hf, hx, hpath, hjson, hdebug⟩ := h
  have hp := Placed.of_foldl xs
  rw [ofArguments_of_readAll hr, hf]
  refine (if_pos (hp.extra.mpr hx)).trans (congrArg _ ?_)
  ext1
  · exact hp.path.trans hpath.symm
  · rw [Bool.eq_iff_iff, hp.json, hjson]
  · rw [Bool.eq_iff_iff, hp.debug, hdebug]

theorem misuse_or_help_or_census (arguments : List Text) :
    IsMisuse arguments ∨ CallsForHelp arguments ∨ ∃ options, IsCall arguments options := by
  cases hr : Argument.readAll arguments with
  | error m => exact .inl (.inl (Argument.exists_readAll_error_iff.mp ⟨m, hr⟩))
  | ok xs =>
    have hp := Placed.of_foldl xs
    cases hf : xs.find? Argument.isFinal with
    | some a =>
      obtain rfl | ⟨s, value, rfl⟩ := Argument.isFinal_iff.mp (List.find?_some hf)
      · exact .inr (.inl ⟨xs, hr, hf⟩)
      · exact .inl (.inr ⟨xs, hr, .inl ⟨s, value, hf⟩⟩)
    | none =>
      by_cases hx : HasExtra xs
      · exact .inl (.inr ⟨xs, hr, .inr ⟨hf, hx⟩⟩)
      · exact .inr (.inr ⟨_, xs, hr, hf, hx, hp.path, hp.json, hp.debug⟩)

theorem eq_census_iff : ofArguments arguments = .census options ↔ IsCall arguments options := by
  refine ⟨?_, eq_census⟩
  intro hr
  obtain h | h | ⟨o, h⟩ := misuse_or_help_or_census arguments
  · obtain ⟨m, hm⟩ := exists_misuse h
    rw [hm] at hr
    cases hr
  · rw [eq_help h] at hr
    cases hr
  · rw [eq_census h] at hr
    cases hr
    exact h

end Request

end ColorCensus.Cli
