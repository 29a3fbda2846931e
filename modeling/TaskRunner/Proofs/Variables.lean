import Mathlib.Data.List.Forall2
import TaskRunner.Proofs.Causality
import TaskRunner.Proofs.Keys
import TaskRunner.Proofs.Phrases
import TaskRunner.Proofs.Placement
import TaskRunner.Proofs.Segmentation

/-!
# Every variable of a script can be reached

A variable is reached by its name, as `$name` or `$(name)`, and the same notation is used for the
arguments of a run. The two do not meet: a script can only assign to what the grammar takes for a
name, a name is no index, no range and none of the two signs for the arguments, and all its
characters may stand in a key without brackets (`variable_reachable`).

`commandLines` has the lines that a target may hand over, each with the variables in sight there.
The calls of a run are the first of them, rendered (`runSteps_calls`).
-/
namespace TaskRunner

open Grammar

/-! ## The command lines of a target -/

/-- A line for an interpreter and the variables in sight there. -/
structure CommandLine where
  via : Interpreter
  template : String
  scope : Scope

/-- The lines among some steps, from the scope before the first of them. -/
def commandLines : Scope → List Step → List CommandLine
  | _, [] => []
  | scope, .set name value :: rest => commandLines (scope.insert name value) rest
  | scope, .run template :: rest => ⟨.shell, template, scope⟩ :: commandLines scope rest
  | scope, .python template :: rest => ⟨.python, template, scope⟩ :: commandLines scope rest
  | scope, .exit _ :: rest => commandLines scope rest
  | scope, .yield :: rest => commandLines scope rest

/-- The lines of a target: the globals it has taken, with what is set before a line on top. -/
def Target.commandLines (t : Target) : List CommandLine :=
  TaskRunner.commandLines t.globals t.steps

/-- The call is what the line gives for these arguments. -/
def CommandLine.Gives (args : List String) (line : CommandLine) (call : Call) : Prop :=
  call.via = line.via ∧ Template.render (line.scope.context args) line.template = .ok call.command

/-- The calls are what the first of these lines give, one line for each call. -/
def Called (args : List String) (lines : List CommandLine) (calls : List Call) : Prop :=
  List.Forall₂ (CommandLine.Gives args) (lines.take calls.length) calls

variable {σ : Type}

/-- A line that is rendered and handed over is the first call; if it cannot be rendered there is no
call at all. -/
theorem runCommand_calls (runner : Runner σ) (args : List String) (line : CommandLine)
    (rest : List CommandLine) (state : σ) (next : Int → σ → Run σ)
    (hnext : ∀ status state, Called args rest (next status state).calls) :
    Called args (line :: rest)
      (runCommand runner (line.scope.context args) line.via line.template state next).calls := by
  unfold runCommand
  cases hrender : Template.render (line.scope.context args) line.template with
  | error e => exact .nil
  | ok command =>
    simp only
    split
    · exact .cons ⟨rfl, hrender⟩ .nil
    · exact .cons ⟨rfl, hrender⟩ (hnext _ _)

/-- **The calls of a run are the first command lines**, each rendered among its own variables. -/
theorem runSteps_calls (runner : Runner σ) (args : List String) : ∀ (steps : List Step)
    (scope : Scope) (status : Int) (state : σ),
    Called args (commandLines scope steps) (runSteps runner args steps scope status state).calls
  | [], _, _, _ => .nil
  | .set name value :: rest, scope, status, state =>
    runSteps_calls runner args rest (scope.insert name value) status state
  | .run template :: rest, scope, _, state =>
    runCommand_calls runner args ⟨.shell, template, scope⟩ _ state _
      fun status state => runSteps_calls runner args rest scope status state
  | .python template :: rest, scope, _, state =>
    runCommand_calls runner args ⟨.python, template, scope⟩ _ state _
      fun status state => runSteps_calls runner args rest scope status state
  | .exit _ :: _, _, _, _ => .nil
  | .yield :: rest, scope, status, state => by
    simp only [commandLines, runSteps]
    split
    · exact .nil
    · exact runSteps_calls runner args rest scope status state

/-! ## Names as keys -/

theorem Bindings.get?_map {α β : Type} (f : α → β) (b : Bindings α) (name : String) :
    (b.map f).get? name = (b.get? name).map f := by
  obtain ⟨entries⟩ := b
  simp only [map, get?]
  induction entries with
  | nil => rfl
  | cons e entries ih =>
    simp only [List.map_cons, lookup]
    split
    · rfl
    · exact ih

/-- A key without a colon names no range. -/
theorem Key.range?_eq_none {key : List Char} (h : ':' ∉ key) (count : Nat) :
    range? count key = none := by
  have hbounds : bounds? key = none := by
    cases hb : bounds? key with
    | none => rfl
    | some x =>
      obtain ⟨before, after, hcolon⟩ := bounds?_eq_some.1 hb
      exact absurd (by simp [hcolon.key_eq]) h
  rw [range?, hbounds]

theorem Grammar.Token.IsName.not_mem {s : String} (h : IsName s) {c : Char}
    (hc : Grammar.isNameChar c = false) : c ∉ s.toList := by
  intro hmem
  rw [h.isNameChar c hmem] at hc
  cases hc

/-- **A name is the key of a variable**, whatever the arguments are. -/
theorem Context.resolve_of_isName {name : String} (h : Token.IsName name) (ctx : Context) :
    ctx.resolve name.toList = (ctx.var? name).getD "" := by
  have hdigits : name.toList.all isDigit = false := by
    obtain ⟨c, w, hs, hc, -⟩ := h
    rw [hs, List.all_cons, Token.isDigit_of_isLetter hc, Bool.false_and]
  have hat : name.toList ≠ ['@'] := fun he => h.not_mem (c := '@') (by decide) (by simp [he])
  have hhash : name.toList ≠ ['#'] := fun he => h.not_mem (c := '#') (by decide) (by simp [he])
  rw [resolve, if_neg (by simp [hdigits]), if_neg hat, if_neg hhash,
    Key.range?_eq_none (h.not_mem (by decide)), String.ofList_toList]

/-- Both ways to write a variable give its text. -/
theorem Template.render_name {name : String} (h : Token.IsName name) {ctx : Context} {text : String}
    (hvar : ctx.var? name = some text) :
    render ctx ("$" ++ name) = .ok text ∧ render ctx ("$(" ++ name ++ ")") = .ok text := by
  have hkey : ctx.resolve name.toList = text := by
    rw [Context.resolve_of_isName h, hvar, Option.getD_some]
  constructor
  · have hclosing : (Segment.lastBare name.toList).Closing := by
      obtain ⟨c, w, hs, -⟩ := id h
      refine Segment.closing_lastBare_iff.2 ⟨by simp [hs], fun d hd => ?_⟩
      rw [isBareChar, h.isNameChar d hd, Bool.true_or]
    have hrun := between_closing ctx hclosing ""
    rw [Segment.expand, hkey, String.empty_append] at hrun
    simpa [render, between, Segment.source] using hrun
  · have hinner : (Segment.bracketed name.toList).Inner := h.not_mem (by decide)
    have hrun := between_inner ctx hinner "" []
    rw [Segment.expand, hkey, String.empty_append] at hrun
    simpa [render, between, Segment.source, scan] using hrun

/-! ## What a script assigns to -/

/-- Everything that is bound has a name. -/
def Scope.Named (scope : Scope) : Prop := ∀ x v, scope.get? x = some v → Token.IsName x

theorem Scope.Named.insert {scope : Scope} (h : scope.Named) {name : String}
    (hname : Token.IsName name) (value : Value) : Named (scope.insert name value) := by
  intro x v hx
  rw [Bindings.get?_insert] at hx
  split at hx
  · rename_i he
    rw [he]
    exact hname
  · exact h x v hx

/-- What is assigned to in a list of statements are names. -/
def NamedBody (body : List Statement) : Prop := ∀ a, .assign a ∈ body → Token.IsName a.name

/-- What is set in a list of steps are names. -/
def NamedSteps (steps : List Step) : Prop := ∀ x v, .set x v ∈ steps → Token.IsName x

theorem Grammar.Parser.Takes.assign_name {expr : Parser Expr} {body : Parser (List Placed)}
    {s r : List Char} {phrase : Phrase} (h : Parser.Takes expr body s phrase r) {name : String}
    {value : Expr} (hp : phrase = .assign name value) : IsOwnName name := by
  cases h with
  | assign hown => cases hp; exact hown
  | _ => cases hp

/-- **Every assignment of a script is to a name**, at the top level and in targets. -/
theorem Script.assigns_names {source : String} {filename : Option String} {script : Script}
    (h : Script.parse source filename = .ok script) :
    (∀ a, .assign a ∈ script.items → Token.IsName a.name) ∧
      ∀ t, .target t ∈ script.items → NamedBody t.body := by
  obtain ⟨ps, hps, hscript⟩ := parse_eq_ok_iff.1 h
  have hwithin : Parser.Within (fun _ phrase => ∀ name value, phrase = .assign name value →
      IsOwnName name) source.toList ps :=
    Parser.phrases?_within (fun v name value he => by cases he)
      (fun htakes name value he => htakes.assign_name he) hps
  have hitem := stands_of_mem hscript
  constructor
  · intro a ha
    obtain ⟨⟨s, phrase⟩, hp, hstands⟩ := hitem _ ha
    cases hstands with
    | assign name value =>
      cases (hwithin _ hp).2 with
      | intro hown => exact (hown name value rfl).1
  · intro t ht a ha
    obtain ⟨⟨s, phrase⟩, hp, hstands⟩ := hitem _ ht
    cases hstands with
    | oneLine name command => simp [TargetDecl.ofCommand] at ha
    | @block name body _ hbody =>
      obtain ⟨⟨s', inner⟩, hq, hstatement⟩ := TargetDecl.statement_of_mem hbody _ ha
      cases inner with
      | assign name' value =>
        cases hstatement
        cases (hwithin _ hp).2 with
        | intro _ _ hinside =>
          cases hinside name body rfl _ hq with
          | intro hown => exact (hown name' value rfl).1
      | _ => cases hstatement

/-- The steps of a body set what its statements assign to. -/
theorem NamedBody.compileBody {body : List Statement} (h : NamedBody body) {scope : Scope}
    {steps : List Step} (hsteps : TaskRunner.compileBody scope body = .ok steps) :
    NamedSteps steps := by
  induction body generalizing scope steps with
  | nil =>
    cases hsteps
    intro x v hx
    cases hx
  | cons s body ih =>
    obtain ⟨scope', step, tail, hs, htail, rfl⟩ := compileBody_cons hsteps
    intro x v hx
    rcases List.mem_append.1 hx with hx | hx
    · have hstep : step = some (.set x v) := by simpa [eq_comm] using hx
      cases s with
      | assign a =>
        obtain ⟨_, -, -, hset⟩ := compile_assign hs
        rw [hstep] at hset
        cases hset
        exact h a (by simp)
      | exit code line =>
        cases code with
        | none => cases hs; cases hstep
        | some e =>
          obtain ⟨_, -, hexit⟩ := compile_exit_some hs
          rw [hstep] at hexit
          cases hexit
      | comment | arg | command | python | yield => cases hs; cases hstep
    · exact ih (fun a ha => h a (by simp [ha])) htail x v hx

/-- What a target has taken and what it sets are names. -/
def Target.Named (t : Target) : Prop := t.globals.Named ∧ NamedSteps t.steps

/-- **Step.** An item whose assignments are to names keeps the globals and the targets that way. -/
theorem Registry.addItem_named {r r' : Registry} {g g' : Scope} {item : Item}
    (hassign : ∀ a, item = .assign a → Token.IsName a.name)
    (hbody : ∀ t, item = .target t → NamedBody t.body)
    (hg : g.Named) (hr : ∀ t ∈ r.targets, t.Named) (h : addItem (r, g) item = .ok (r', g')) :
    g'.Named ∧ ∀ t ∈ r'.targets, t.Named := by
  obtain ⟨_, -, rfl, rfl⟩ | ⟨a, v, rfl, -, rfl, rfl⟩ | ⟨t, target, rfl, hcompile, hregister, rfl⟩ :=
    addItem_cases h
  · exact ⟨hg, hr⟩
  · exact ⟨hg.insert (hassign a rfl) v, hr⟩
  · refine ⟨hg, fun t' ht' => ?_⟩
    rw [(register_eq_ok hregister).2] at ht'
    rcases List.mem_append.1 ht' with ht' | ht'
    · exact hr t' ht'
    · cases List.mem_singleton.1 ht'
      obtain ⟨-, hglobals, hsteps⟩ := TargetDecl.compile_eq_ok hcompile
      exact ⟨hglobals ▸ hg, (hbody t rfl).compileBody hsteps⟩

/-- **Run.** All variables of the targets of a script have names. -/
theorem Registry.load_named {script : Script} {r : Registry}
    (hassign : ∀ a, .assign a ∈ script.items → Token.IsName a.name)
    (hbody : ∀ t, .target t ∈ script.items → NamedBody t.body) (h : load script = .ok r) :
    ∀ t ∈ r.targets, t.Named := by
  obtain ⟨g, hfold⟩ := load_eq_ok_iff.1 h
  refine (foldlM_invariant
    (fun st : Registry × Scope => st.2.Named ∧ ∀ t ∈ st.1.targets, t.Named) ?_ ?_ hfold).2
  · rintro item hitem ⟨r, g⟩ ⟨r', g'⟩ ⟨hg, hr⟩ hstep
    exact addItem_named (fun a he => hassign a (he ▸ hitem)) (fun t he => hbody t (he ▸ hitem))
      hg hr hstep
  · refine ⟨fun x v hx => ?_, fun t ht => ?_⟩
    · cases hx
    · cases ht

theorem commandLines_named : ∀ {steps : List Step} {scope : Scope}, scope.Named →
    NamedSteps steps → ∀ line ∈ commandLines scope steps, line.scope.Named
  | [], _, _, _, line, hline => by cases hline
  | step :: rest, scope, hscope, hsteps, line, hline => by
    have hrest : NamedSteps rest := fun x v hx => hsteps x v (by simp [hx])
    cases step with
    | set name value =>
      have hname := hsteps name value (by simp)
      exact commandLines_named (hscope.insert hname value) hrest line hline
    | run template | python template =>
      rcases List.mem_cons.1 hline with rfl | hline
      · exact hscope
      · exact commandLines_named hscope hrest line hline
    | exit code => exact commandLines_named hscope hrest line hline
    | yield => exact commandLines_named hscope hrest line hline

/-- **Every variable can be reached, and no argument can stand in its way.** In every command line
of a target of a script that can be read and loaded, a variable in sight is rendered to its value,
in brackets or not, whatever the arguments are; and what a run hands over are these lines, rendered
among these variables. -/
theorem variable_reachable {source : String} {filename : Option String} {script : Script}
    {r : Registry} (hparse : Script.parse source filename = .ok script)
    (hload : Registry.load script = .ok r) {t : Target} (ht : t ∈ r.targets) (args : List String) :
    (∀ line ∈ t.commandLines, ∀ x v, line.scope.get? x = some v →
      Template.render (line.scope.context args) ("$" ++ x) = .ok v.render ∧
        Template.render (line.scope.context args) ("$(" ++ x ++ ")") = .ok v.render) ∧
    ∀ (σ : Type) (runner : Runner σ) (state : σ),
      Called args t.commandLines (t.run runner args state).calls := by
  obtain ⟨hassign, hbody⟩ := Script.assigns_names hparse
  obtain ⟨hglobals, hsteps⟩ := Registry.load_named hassign hbody hload t ht
  refine ⟨fun line hline x v hx => ?_, fun σ runner state => ?_⟩
  · have hname := commandLines_named hglobals hsteps line hline x v hx
    refine Template.render_name hname ?_
    rw [Context.var?, Scope.context, Bindings.get?_map, hx, Option.map_some]
  · exact runSteps_calls runner args t.steps t.globals 0 state

/-- A target that gives a variable of the top level another value between its two lines. -/
def twoValues : String := "x = \"a\"\nt \x7b\n$ echo $x\nx = \"b\"\n>>> print($x)\n\x7d\n"

theorem variable_reachable_sample :
    ∃ script r t line, Script.parse twoValues none = .ok script ∧ Registry.load script = .ok r ∧
      t ∈ r.targets ∧ line ∈ t.commandLines ∧ line.scope.get? "x" = some (.text "b") ∧
      Template.render (line.scope.context ["9"]) ("$" ++ "x") = .ok "b" ∧
      Template.render (line.scope.context ["9"]) ("$(" ++ "x" ++ ")") = .ok "b" ∧
      (t.run Runner.scripted ["9"] []).calls =
        [⟨.shell, "echo a"⟩, ⟨.python, "print(b)"⟩] ∧
      List.Forall₂ (CommandLine.Gives ["9"]) t.commandLines
        [⟨.shell, "echo a"⟩, ⟨.python, "print(b)"⟩] := by
  have hparse : Script.parse twoValues none =
      .ok ⟨none, [.assign ⟨"x", .text "a", 1⟩, .target ⟨"t", none,
        [.command "echo $x" 3, .assign ⟨"x", .text "b", 4⟩, .python "print($x)" 5], 2⟩]⟩ :=
    Script.parse_eq_ok_iff.2 ⟨_, rfl, rfl⟩
  have hload : Registry.load ⟨none, [.assign ⟨"x", .text "a", 1⟩, .target ⟨"t", none,
      [.command "echo $x" 3, .assign ⟨"x", .text "b", 4⟩, .python "print($x)" 5], 2⟩]⟩ =
      .ok ⟨none, [⟨"t", none, [], ⟨[("x", .text "a")]⟩,
        [.run "echo $x", .set "x" (.text "b"), .python "print($x)"]⟩]⟩ := rfl
  have hline : CommandLine.mk .python "print($x)" ⟨[("x", .text "b")]⟩ ∈
      (Target.mk "t" none [] ⟨[("x", .text "a")]⟩
        [.run "echo $x", .set "x" (.text "b"), .python "print($x)"]).commandLines := by
    simp [Target.commandLines, commandLines, Bindings.insert, Bindings.insertEntry]
  obtain ⟨hrender, hcalls⟩ :=
    variable_reachable hparse hload (List.mem_singleton.2 rfl) ["9"]
  obtain ⟨hbare, hbracketed⟩ := hrender _ hline "x" (.text "b") rfl
  have hboth : (Target.run Runner.scripted ["9"] ⟨"t", none, [], ⟨[("x", .text "a")]⟩,
      [.run "echo $x", .set "x" (.text "b"), .python "print($x)"]⟩ []).calls =
      [⟨.shell, "echo a"⟩, ⟨.python, "print(b)"⟩] := by decide +kernel
  have hcalled := hcalls _ Runner.scripted []
  rw [hboth] at hcalled
  exact ⟨_, _, _, _, hparse, hload, List.mem_singleton.2 rfl, hline, rfl, hbare, hbracketed,
    hboth, hcalled⟩

end TaskRunner
