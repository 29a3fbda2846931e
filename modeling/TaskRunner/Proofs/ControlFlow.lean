import TaskRunner.Proofs.Segmentation
import TaskRunner.Run.Basic

/-!
# What decides the course of a run

Two runs of a target can differ for two reasons. The commands may end in other ways: this decides
how far a run gets and nothing else, because what it hands over are the first of the commands that
are handed over if none of them fails (`Target.calls_comparable`). Or the arguments and variables
may have other values: this decides the texts of the commands and nothing else, because a template
that can be rendered at all can be rendered among any values (`Target.outline_eq`).
-/
namespace TaskRunner

variable {σ τ : Type}

/-! ## Other outcomes -/

/-- A runner for which every command succeeds. -/
def Runner.succeeding : Runner Unit := fun _ _ state => (.ok 0, state)

/-- The end of a run whose last command has failed, or could not be run, and then with the runner's
own error. -/
def Failed (runner : Runner σ) (result : Except RunError Int) : Prop :=
  (∃ via command state e, (runner via command state).1 = .error e ∧ result = .error e) ∨
    ∃ n, 0 < n ∧ result = .ok n

/-- The calls of a run are the first of these, and all of them unless a command fails. -/
structure Run.Front (runner : Runner σ) (r : Run σ) (calls : List Call) : Prop where
  le : r.calls <+: calls
  failed : r.calls ≠ calls → Failed runner r.result

theorem Run.Front.finished {runner : Runner σ} (result : Except RunError Int) (events : List Event)
    (state : σ) : (Run.finished result events state).Front runner [] :=
  ⟨List.prefix_refl [], fun h => absurd rfl h⟩

/-- **Step.** A command that cannot be rendered ends the run with every runner, and any other is the
next call with every runner. -/
theorem runCommand_front (runner : Runner σ) (ctx : Context) (via : Interpreter) (template : String)
    (state : σ) {next : Int → σ → Run σ} {full : Int → Unit → Run Unit}
    (hnext : ∀ status state, (next status state).Front runner (full 0 ()).calls) :
    (runCommand runner ctx via template state next).Front runner
      (runCommand .succeeding ctx via template () full).calls := by
  unfold runCommand
  cases Template.render ctx template with
  | error e => exact .finished _ _ _
  | ok command =>
    simp only [Runner.succeeding]
    split
    · rename_i e state' he
      exact ⟨List.cons_prefix_cons.2 ⟨rfl, List.nil_prefix⟩,
        fun _ => .inl ⟨via, command, state, e, by rw [he], rfl⟩⟩
    · rename_i status state' _
      obtain ⟨hle, hfailed⟩ := hnext status state'
      refine ⟨List.cons_prefix_cons.2 ⟨rfl, hle⟩, fun hne => hfailed fun he => hne ?_⟩
      exact congrArg (List.cons _) he

/-- **Run.** A runner gets as far as one for which every command succeeds, or up to a failure. -/
theorem runSteps_front (runner : Runner σ) (args : List String) : ∀ (steps : List Step)
    (scope : Scope) (status : Int) (state : σ),
    (runSteps runner args steps scope status state).Front runner
      (runSteps .succeeding args steps scope 0 ()).calls
  | [], _, _, _ => .finished _ _ _
  | .set name value :: rest, scope, status, state =>
    runSteps_front runner args rest (scope.insert name value) status state
  | .run template :: rest, scope, _, state =>
    runCommand_front runner _ .shell template state fun status state =>
      runSteps_front runner args rest scope status state
  | .python template :: rest, scope, _, state =>
    runCommand_front runner _ .python template state fun status state =>
      runSteps_front runner args rest scope status state
  | .exit _ :: _, _, _, _ => .finished _ _ _
  | .yield :: rest, scope, status, state => by
    simp only [runSteps, Int.lt_irrefl, if_false]
    split
    · rename_i hpos
      exact ⟨List.nil_prefix, fun _ => .inr ⟨status, hpos, rfl⟩⟩
    · exact runSteps_front runner args rest scope status state

/-- **The outcomes of commands decide how far a target runs, and not what it runs.** Of the calls
of two runs, whatever the runners, one list is the front part of the other, and a run with fewer
calls than another was ended by a command that failed. -/
theorem Target.calls_comparable (t : Target) (args : List String) (runner : Runner σ)
    (runner' : Runner τ) (state : σ) (state' : τ) :
    ((t.run runner args state).calls <+: (t.run runner' args state').calls ∨
      (t.run runner' args state').calls <+: (t.run runner args state).calls) ∧
    ((t.run runner args state).calls.length < (t.run runner' args state').calls.length →
      Failed runner (t.run runner args state).result) := by
  have h : (t.run runner args state).Front runner _ :=
    runSteps_front runner args t.steps t.globals 0 state
  have h' : (t.run runner' args state').Front runner' _ :=
    runSteps_front runner' args t.steps t.globals 0 state'
  refine ⟨List.prefix_or_prefix_of_prefix h.le h'.le, fun hlt => h.failed fun he => ?_⟩
  have hle := h'.le.length_le
  rw [he] at hlt
  omega

/-- A target that stops behind its first command if that fails. -/
def guarded : Target := ⟨"t", none, [], .empty, [.run "make $0", .yield, .run "ship $0"]⟩

theorem calls_comparable_guarded :
    (guarded.run Runner.scripted ["a"] [.ok 2]).calls = [⟨.shell, "make a"⟩] ∧
      (guarded.run Runner.scripted ["a"] []).calls = [⟨.shell, "make a"⟩, ⟨.shell, "ship a"⟩] ∧
      ((guarded.run Runner.scripted ["a"] [.ok 2]).calls <+:
          (guarded.run Runner.scripted ["a"] []).calls ∨
        (guarded.run Runner.scripted ["a"] []).calls <+:
          (guarded.run Runner.scripted ["a"] [.ok 2]).calls) ∧
      Failed Runner.scripted (guarded.run Runner.scripted ["a"] [.ok 2]).result := by
  have h := guarded.calls_comparable ["a"] Runner.scripted Runner.scripted [.ok 2] []
  exact ⟨by decide +kernel, by decide +kernel, h.1, h.2 (by decide +kernel)⟩

/-! ## Other values -/

/-- A step without the value that it sets. -/
def Step.shape : Step → Step
  | .set name _ => .set name (.text "")
  | step => step

theorem Step.cases_of_shape {s s' : Step} (h : s.shape = s'.shape) :
    (∃ name v w, s = .set name v ∧ s' = .set name w) ∨ s = s' := by
  cases s <;> cases s' <;> simp_all [shape]

/-- The state of a runner after some calls. -/
def Runner.after (runner : Runner σ) (state : σ) (calls : List Call) : σ :=
  calls.foldl (fun state call => (runner call.via call.command state).2) state

/-- An error without the command that it quotes. -/
def RunError.unquoted : RunError → RunError
  | .spawn _ reason => .spawn "" reason
  | e => e

/-- The runner gives the replies of a row one after the other, whatever it is handed, up to the
command that an error quotes. -/
def Runner.Recites (runner : Runner σ) (state : σ) (reply : Nat → Except RunError Int) : Prop :=
  ∀ (calls : List Call) (call : Call),
    (runner call.via call.command (runner.after state calls)).1.mapError RunError.unquoted =
      reply calls.length

theorem Runner.Recites.next {runner : Runner σ} {state : σ} {reply : Nat → Except RunError Int}
    (h : runner.Recites state reply) (via : Interpreter) (command : String) :
    ∃ answer state', runner via command state = (answer, state') ∧
      answer.mapError RunError.unquoted = reply 0 ∧
      runner.Recites state' fun i => reply (i + 1) :=
  ⟨_, _, rfl, h [] ⟨via, command⟩, fun calls call => h (⟨via, command⟩ :: calls) call⟩

/-- A run without the texts of its commands: what each call goes to, and how the run ends. -/
def Run.outline (r : Run σ) : List Interpreter × Except RunError Int :=
  (r.calls.map Call.via, r.result.mapError RunError.unquoted)

theorem Run.outline_afterCall (call : Call) (events : List Event) (r : Run σ) :
    (r.afterCall call events).outline = (call.via :: r.outline.1, r.outline.2) := rfl

/-- A template can be rendered in every context or in none. -/
theorem Template.render_uniform (template : String) :
    (∃ e, ∀ ctx, render ctx template = .error e) ∨
      ∀ ctx, ∃ command, render ctx template = .ok command := by
  obtain ⟨k⟩ := exists_segmentation template.toList
  have hrender : ∀ ctx, render ctx template = k.output ctx := render_eq_output k
  cases hk : k.marker with
  | true =>
    refine .inl ⟨.unterminatedMarker, fun ctx => ?_⟩
    rw [hrender, Segmentation.output, hk]
    rfl
  | false =>
    refine .inr fun ctx => ⟨String.join (k.parts.map (Segment.expand ctx)), ?_⟩
    rw [hrender, Segmentation.output, hk]
    rfl

/-- **Step.** A command has the same place in both runs. -/
theorem runCommand_outline {runner : Runner σ} {runner' : Runner τ} {state : σ} {state' : τ}
    {reply : Nat → Except RunError Int} (h : runner.Recites state reply)
    (h' : runner'.Recites state' reply) (ctx ctx' : Context) (via : Interpreter) (template : String)
    {next : Int → σ → Run σ} {next' : Int → τ → Run τ}
    (hnext : ∀ status s s', runner.Recites s (fun i => reply (i + 1)) →
      runner'.Recites s' (fun i => reply (i + 1)) →
      (next status s).outline = (next' status s').outline) :
    (runCommand runner ctx via template state next).outline =
      (runCommand runner' ctx' via template state' next').outline := by
  unfold runCommand
  rcases Template.render_uniform template with ⟨e, he⟩ | hok
  · rw [he ctx, he ctx']
    rfl
  · obtain ⟨command, hcommand⟩ := hok ctx
    obtain ⟨command', hcommand'⟩ := hok ctx'
    obtain ⟨answer, s, hs, hanswer, hrest⟩ := h.next via command
    obtain ⟨answer', s', hs', hanswer', hrest'⟩ := h'.next via command'
    have hsame := hanswer.trans hanswer'.symm
    simp only [hcommand, hcommand', hs, hs']
    cases answer with
    | error e =>
      cases answer' with
      | error e' => exact congrArg (Prod.mk [via]) hsame
      | ok status => cases hsame
    | ok status =>
      cases answer' with
      | error e => cases hsame
      | ok status' =>
        cases hsame
        simp only [Run.outline_afterCall, hnext status s s' hrest hrest']

/-- **Run.** Steps that differ in the values that they set take the same course. -/
theorem runSteps_outline {runner : Runner σ} {runner' : Runner τ} (args args' : List String) :
    ∀ {steps steps' : List Step} (_ : steps.map Step.shape = steps'.map Step.shape)
      (scope scope' : Scope) (status : Int) {state : σ} {state' : τ}
      {reply : Nat → Except RunError Int}, runner.Recites state reply →
      runner'.Recites state' reply →
      (runSteps runner args steps scope status state).outline =
        (runSteps runner' args' steps' scope' status state').outline := by
  intro steps
  induction steps with
  | nil =>
    intro steps' hshape scope scope' status state state' reply h h'
    cases List.map_eq_nil_iff.1 hshape.symm
    rfl
  | cons step rest ih =>
    intro steps' hshape scope scope' status state state' reply h h'
    obtain ⟨step', rest', rfl, hstep, hrest⟩ := List.map_eq_cons_iff.1 hshape.symm
    have hrest := hrest.symm
    obtain ⟨name, v, w, rfl, rfl⟩ | rfl := Step.cases_of_shape hstep.symm
    · exact ih hrest _ _ _ h h'
    · cases step with
      | set name value => exact ih hrest _ _ _ h h'
      | run template | python template =>
        exact runCommand_outline h h' _ _ _ template fun status s s' hs hs' =>
          ih hrest _ _ status hs hs'
      | exit code => rfl
      | yield =>
        simp only [runSteps]
        split
        · rfl
        · exact ih hrest _ _ _ h h'

/-- **The values of arguments and variables do not change the course of a run.** Take two targets
whose steps differ at most in the values that they set, whatever their globals are, any arguments
for each of them, and two runners that give the same replies in the same order. Then the two runs
make the same number of calls, to the same interpreters in the same order, and end in the same way,
up to the command that is quoted if it could not be started. -/
theorem Target.outline_eq {t t' : Target}
    (hsteps : t.steps.map Step.shape = t'.steps.map Step.shape) (args args' : List String)
    {runner : Runner σ} {runner' : Runner τ} {state : σ} {state' : τ}
    {reply : Nat → Except RunError Int} (h : runner.Recites state reply)
    (h' : runner'.Recites state' reply) :
    (t.run runner args state).outline = (t'.run runner' args' state').outline :=
  runSteps_outline args args' hsteps t.globals t'.globals 0 h h'

theorem Runner.recites_scripted (replies : List (Except String Int)) :
    scripted.Recites replies fun i => ((replies[i]?).getD (.ok 0)).mapError (.spawn "" ·) := by
  have hafter : ∀ (calls : List Call) (replies : List (Except String Int)),
      scripted.after replies calls = replies.drop calls.length := by
    intro calls
    induction calls with
    | nil => intro replies; rfl
    | cons call calls ih =>
      intro replies
      have hstep : scripted.after replies (call :: calls) =
          scripted.after (scripted call.via call.command replies).2 calls := rfl
      rw [hstep, ih]
      cases replies with
      | nil => exact List.drop_nil.trans List.drop_nil.symm
      | cons reply rest => cases reply <;> rfl
  intro calls call
  simp only [hafter, ← List.head?_drop]
  cases replies.drop calls.length with
  | nil => rfl
  | cons reply rest => cases reply <;> rfl

/-- A target whose last line cannot be rendered, with a value for its variable. -/
def quoting (value : String) : Target :=
  ⟨"t", none, [], ⟨[("x", .text value)]⟩,
    [.run "echo $x $0", .set "x" (.text (value ++ ")")), .yield, .python "print($x)", .run "$"]⟩

theorem outline_eq_quoting :
    (quoting "a").steps.map Step.shape = (quoting "$(0) $").steps.map Step.shape ∧
      (∃ reply, Runner.scripted.Recites [.ok 0, .error "gone"] reply) ∧
      ((quoting "a").run Runner.scripted ["b"] [.ok 0, .error "gone"]).outline =
        ((quoting "$(0) $").run Runner.scripted ["$", "("] [.ok 0, .error "gone"]).outline ∧
      ((quoting "a").run Runner.scripted ["b"] [.ok 0, .error "gone"]).outline =
        ([.shell, .python], .error (.spawn "" "gone")) := by
  have hsteps : (quoting "a").steps.map Step.shape = (quoting "$(0) $").steps.map Step.shape := rfl
  have h := Runner.recites_scripted [.ok 0, .error "gone"]
  exact ⟨hsteps, ⟨_, h⟩, Target.outline_eq hsteps ["b"] ["$", "("] h h, by decide +kernel⟩

end TaskRunner
