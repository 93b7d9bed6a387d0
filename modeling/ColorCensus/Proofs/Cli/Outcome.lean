import ColorCensus.Cli.Command
import ColorCensus.Proofs.Census
import ColorCensus.Proofs.Cli.Arguments
import ColorCensus.Proofs.Text.Split
import Mathlib.Data.List.TakeWhile

namespace ColorCensus.Cli

open Text CodePoint

variable {i j : Invocation} {options : Options} {text line root : Text} {r : Report} {failure : Failure}

def IsFirstLine (text line : Text) : Prop :=
  text ≠ [] ∧ char '\n' ∉ line ∧ ∃ more, text = line ++ more ∧ ∀ c ∈ more.head?, c = char '\n'

theorem isFirstLine_iff : IsFirstLine text line ↔ firstLine text = some line := by
  cases text with
  | nil => simp [IsFirstLine, firstLine]
  | cons c s =>
    rw [firstLine, Option.some_inj]
    constructor
    · rintro ⟨-, hline, more, h, hmore⟩
      rw [h, takeWhile_append_of_head? (fun d hd => ?_) fun d hd => by simpa using hmore d hd]
      rw [decide_eq_true_eq]
      rintro rfl
      exact hline hd
    · rintro rfl
      refine ⟨List.cons_ne_nil c s, fun hc => ?_, (c :: s).dropWhile (· ≠ char '\n'),
        (List.takeWhile_append_dropWhile).symm, fun d hd => ?_⟩
      · simpa using List.mem_takeWhile_imp hc
      · have hnot := List.head?_dropWhile_not (fun d => decide (d ≠ char '\n')) (c :: s)
        rw [Option.mem_def.mp hd] at hnot
        simpa using hnot

inductive IsRoot (options : Options) (input : Text) (root : Text) : Prop where
  | given (h : options.path = some root)
  | read (h : options.path = none) (hline : IsFirstLine (unifyNewlines input) root)

theorem isRoot_iff : IsRoot options text root ↔ rootOf options text = some root := by
  rw [rootOf]
  constructor
  · rintro (h | ⟨h, hline⟩)
    · rw [h]
    · rw [h]
      exact isFirstLine_iff.mp hline
  · intro h
    cases hp : options.path with
    | some path =>
      rw [hp] at h
      exact .given (hp.trans h)
    | none =>
      rw [hp] at h
      exact .read hp (isFirstLine_iff.mpr h)

def outcomeAt (i : Invocation) (root : Text) : Except Census.Fault Report :=
  (Census.takeStandard i.files ⟨i.program, none⟩ root).result

def Reports (i : Invocation) (options : Options) (r : Report) : Prop :=
  ∃ root, IsRoot options i.input root ∧ outcomeAt i root = .ok r

def FailsBy (i : Invocation) (options : Options) : Failure → Prop
  | .noInput => ∀ root, ¬ IsRoot options i.input root
  | .census f => ∃ root, IsRoot options i.input root ∧ outcomeAt i root = .error f

def asked (options : Options) : Text := if options.path = none then prompt else []

theorem reports_or_failsBy (i : Invocation) (options : Options) :
    (∃ r, Reports i options r) ∨ ∃ failure, FailsBy i options failure := by
  by_cases h : ∃ root, IsRoot options i.input root
  · obtain ⟨root, hroot⟩ := h
    cases ho : outcomeAt i root with
    | ok r => exact .inl ⟨r, root, hroot, ho⟩
    | error f => exact .inr ⟨.census f, root, hroot, ho⟩
  · exact .inr ⟨.noInput, not_exists.mp h⟩

theorem asked_eq (options : Options) : (if options.path.isNone then prompt else []) = asked options := by
  simp [asked]

def IsLines (text : Text) : Prop := text = [] ∨ ∃ lines : Text, text = lines ++ "\n"

theorem IsLines.append (hs : IsLines text) (ht : IsLines line) : IsLines (text ++ line) := by
  obtain rfl | ⟨lines, rfl⟩ := ht
  · rw [List.append_nil]
    exact hs
  · exact .inr ⟨text ++ lines, (List.append_assoc ..).symm⟩

theorem isLines_traceText (topics : Topics) (stamp : Text) (events : List Census.Event) :
    IsLines (Census.traceText topics stamp events) := by
  induction events with
  | nil => exact .inl rfl
  | cons e events ih =>
    rw [Census.traceText, List.flatMap_cons]
    refine .append ?_ ih
    rw [Census.Event.written, Trace.written]
    split
    · exact .inr ⟨_, rfl⟩
    · exact .inl rfl

theorem respond_of_isRoot (h : IsRoot options i.input root) : ∃ trace, IsLines trace ∧
    respond i options = match outcomeAt i root with
      | .error f => ⟨asked options, [], trace ++ (Failure.census f).text, 1⟩
      | .ok r => ⟨asked options, r.printed options.json, trace, 0⟩ := by
  let events := (Census.takeStandard i.files ⟨i.program, none⟩ root).events
  refine ⟨_, isLines_traceText (topicsOf options i.topics) i.stamp events, ?_⟩
  rw [respond, isRoot_iff.mp h, asked_eq]
  rfl

theorem respond_of_reports (h : Reports i options r) :
    (respond i options).status = 0 ∧ (respond i options).stdout = asked options ++ r.printed options.json := by
  obtain ⟨root, hroot, ho⟩ := h
  obtain ⟨trace, -, hrespond⟩ := respond_of_isRoot hroot
  rw [hrespond, ho]
  exact ⟨rfl, rfl⟩

theorem respond_of_failsBy (h : FailsBy i options failure) :
    (respond i options).status = 1 ∧ (respond i options).stdout = asked options ∧
      ∃ trace, IsLines trace ∧ (respond i options).errors = trace ++ failure.text := by
  cases failure with
  | noInput =>
    have hnone : rootOf options i.input = none :=
      Option.eq_none_iff_forall_ne_some.mpr fun root hr => h root (isRoot_iff.mpr hr)
    rw [respond, hnone, asked_eq]
    exact ⟨rfl, List.append_nil _, [], .inl rfl, rfl⟩
  | census f =>
    obtain ⟨root, hroot, ho⟩ := h
    obtain ⟨trace, htrace, hrespond⟩ := respond_of_isRoot hroot
    rw [hrespond, ho]
    exact ⟨rfl, List.append_nil _, trace, htrace, rfl⟩

theorem run_of_isCall (h : IsCall i.arguments options) : run i = respond i options := by
  rw [run, Request.eq_census h]

theorem status_respond (i : Invocation) (options : Options) :
    (respond i options).status = 0 ∧ (∃ r, Reports i options r) ∨
      (respond i options).status = 1 ∧ ∃ failure, FailsBy i options failure := by
  obtain ⟨r, h⟩ | ⟨failure, h⟩ := reports_or_failsBy i options
  · exact .inl ⟨(respond_of_reports h).1, r, h⟩
  · exact .inr ⟨(respond_of_failsBy h).1, failure, h⟩

theorem status_respond_ne_two (i : Invocation) (options : Options) : (respond i options).status ≠ 2 := by
  obtain ⟨h, -⟩ | ⟨h, -⟩ := status_respond i options <;> rw [h] <;> decide

def sampleInvocation : Invocation where
  arguments := ["."]
  input := []
  topics := []
  files := Census.sampleFiles.write ["themable_properties.json", "data", "w"]
    (.file (Utf8.encode "[\"color\"]") 0)
  program := "/w/program"
  stamp := []

end ColorCensus.Cli
