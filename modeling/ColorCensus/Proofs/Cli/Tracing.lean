import ColorCensus.Proofs.Cli.Outcome

namespace ColorCensus.Cli

open Text

variable {i j : Invocation} {options options' : Options} {before after : List Text}
  {xs : List Argument} {g g' : Gathered} {a : Argument}

namespace Gathered

structure Alike (g g' : Gathered) : Prop where
  path : g'.options.path = g.options.path
  json : g'.options.json = g.options.json
  extra : g'.extra = g.extra

theorem Alike.addExtra (h : Alike g g') (text : Text) : Alike (g.addExtra text) (g'.addExtra text) :=
  ⟨h.path, h.json, congrArg (· ++ [text]) h.extra⟩

theorem Alike.place (h : Alike g g') (ha : a ≠ .separator) : Alike (g.place a) (g'.place a) := by
  cases a with
  | plain text =>
    rw [Gathered.place, Gathered.place, addPlain, addPlain, h.path]
    split
    · exact ⟨rfl, h.json, h.extra⟩
    · exact h.addExtra text
  | separator => exact absurd rfl ha  -- the only one that is read by where it stands
  | unknown text => exact h.addExtra text
  | switch s =>
    cases s with
    | help => exact ⟨h.path, h.json, h.extra⟩
    | json => exact ⟨h.path, rfl, h.extra⟩
    | debug => exact ⟨h.path, h.json, h.extra⟩
  | valued s value => exact ⟨h.path, h.json, h.extra⟩

theorem Alike.foldl (h : Alike g g') (hxs : .separator ∉ xs) :
    Alike (xs.foldl Gathered.place g) (xs.foldl Gathered.place g') := by
  induction xs generalizing g g' with
  | nil => exact h
  | cons a xs ih =>
    rw [List.mem_cons, not_or] at hxs
    exact ih (h.place (Ne.symm hxs.1)) hxs.2

end Gathered

namespace Request

def traced : Request → Request
  | census options => census { options with debug := true }
  | r => r

theorem traced_close (h : Gathered.Alike g g') (hd : g'.options.debug = true) : g'.close = g.close.traced := by
  rw [Gathered.close, Gathered.close, h.extra]
  split
  · exact congrArg census (Options.ext h.path h.json hd)
  · rfl

theorem traced_ending (a : Argument) : a.ending.traced = a.ending := by
  cases a <;> rfl

theorem readAll_debug (arguments : List Text) : Argument.readAll (Switch.debug.long :: arguments) =
    (Argument.readAll arguments).map (.switch .debug :: ·) :=
  Argument.readAll_cons (by decide) arguments

theorem ofArguments_debug (hb : Argument.doubleDash ∉ before) (ha : Argument.doubleDash ∉ after) :
    ofArguments (before ++ Switch.debug.long :: after) = (ofArguments (before ++ after)).traced := by
  have hread := Argument.readAll_append hb
  cases hx : Argument.readAll before with
  | error m => simp only [ofArguments, hread, hx, Except.bind, traced]
  | ok xs =>
    cases hy : Argument.readAll after with
    | error m => simp only [ofArguments, hread, readAll_debug, hx, hy, Except.bind, Except.map, traced]
    | ok ys =>
      have hplain : Argument.readAll (before ++ after) = .ok (xs ++ ys) := by rw [hread, hx, hy]; rfl
      have htraced : Argument.readAll (before ++ Switch.debug.long :: after) = .ok (xs ++ .switch .debug :: ys) := by
        rw [hread, readAll_debug, hx, hy]
        rfl
      have hfind : (xs ++ .switch .debug :: ys).find? Argument.isFinal =
          (xs ++ ys).find? Argument.isFinal := by
        rw [List.find?_append, List.find?_append, List.find?_cons_of_neg (by decide)]
      rw [ofArguments_of_readAll hplain, ofArguments_of_readAll htraced, hfind]
      cases (xs ++ ys).find? Argument.isFinal with
      | some a => exact (traced_ending a).symm
      | none =>
        refine traced_close ?_ ((Placed.of_foldl _).debug.mpr (by simp))
        rw [List.foldl_append, List.foldl_append, List.foldl_cons]
        exact .foldl ⟨rfl, rfl, rfl⟩ (Argument.separator_not_mem_of_readAll ha hy)

end Request

def Response.Agrees (x y : Response) : Prop := x.status = y.status ∧ x.stdout = y.stdout

theorem respond_agrees (hj : (j.files, j.program, j.input) = (i.files, i.program, i.input))
    (ho : (options'.path, options'.json) = (options.path, options.json)) :
    (respond j options').Agrees (respond i options) := by
  simp only [Prod.mk.injEq] at hj ho
  have hroot : rootOf options' j.input = rootOf options i.input := by
    rw [rootOf, rootOf, ho.1, hj.2.2]
  rw [respond, respond, hroot, hj.1, hj.2.1, ho.1, ho.2]
  cases rootOf options i.input with
  | none => exact ⟨rfl, rfl⟩
  | some root =>
    dsimp only
    cases (Census.takeStandard i.files ⟨i.program, none⟩ root).result with
    | error f => exact ⟨rfl, rfl⟩
    | ok r => exact ⟨rfl, rfl⟩

theorem run_agrees_of_debug (hj : (j.files, j.program, j.input) = (i.files, i.program, i.input))
    (hr : Request.ofArguments j.arguments = (Request.ofArguments i.arguments).traced) :
    (run j).Agrees (run i) ∧ ((run i).status = 2 → (run j).errors = (run i).errors) := by
  rw [run, run, hr]
  cases Request.ofArguments i.arguments with
  | help => exact ⟨⟨rfl, rfl⟩, fun _ => rfl⟩
  | misuse m => exact ⟨⟨rfl, rfl⟩, fun _ => rfl⟩
  | census options =>
    exact ⟨respond_agrees hj rfl, fun h => absurd h (status_respond_ne_two i options)⟩

theorem run_agrees_of_topics (hj : (j.files, j.program, j.input) = (i.files, i.program, i.input))
    (ha : j.arguments = i.arguments) : (run j).Agrees (run i) := by
  rw [run, run, ha]
  cases Request.ofArguments i.arguments with
  | help => exact ⟨rfl, rfl⟩
  | misuse m => exact ⟨rfl, rfl⟩
  | census options => exact respond_agrees hj rfl

theorem run_traced (i : Invocation) :
    (∀ (before after : List Text) (stamp : Text), Argument.doubleDash ∉ before ++ after →
      let plain := run { i with arguments := before ++ after }
      let traced := run { i with arguments := before ++ Switch.debug.long :: after, stamp }
      traced.Agrees plain ∧ (plain.status = 2 → traced.errors = plain.errors)) ∧
    ∀ topics stamp : Text, (run { i with topics, stamp }).Agrees (run { i with topics := [] }) := by
  refine ⟨fun before after stamp h => ?_, fun topics stamp => run_agrees_of_topics rfl rfl⟩
  rw [List.mem_append, not_or] at h
  exact run_agrees_of_debug rfl (Request.ofArguments_debug h.1 h.2)

theorem run_traced_sample :
    Argument.doubleDash ∉ ([ofString "--json"] ++ [ofString "."] : List Text) ∧
    (run { sampleInvocation with arguments := [ofString "--json"] ++ [ofString "."] }).status = 0 ∧
    (run { sampleInvocation with
        arguments := [ofString "--json"] ++ Switch.debug.long :: [ofString "."], stamp := "now" }).Agrees
      (run { sampleInvocation with arguments := [ofString "--json"] ++ [ofString "."] }) :=
  have h : Argument.doubleDash ∉ ([ofString "--json"] ++ [ofString "."] : List Text) := by decide
  ⟨h, by decide +kernel, ((run_traced sampleInvocation).1 _ _ "now" h).1⟩

end ColorCensus.Cli
