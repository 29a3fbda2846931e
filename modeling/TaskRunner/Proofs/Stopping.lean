import TaskRunner.Proofs.ControlFlow

/-!
# Where a run stops at a `yield`

A run can be cut in two behind any of its steps. What the next step finds there is a `Moment`, and
the rest of the run depends on nothing else (`Moment.resume_append`); if the run does not get that
far, it does not depend on the rest at all (`Moment.resume_of_stopped`). A `yield` compares the
status of the last command with zero and stops if it is greater. A status below zero does not stop
the run (`Target.run_at_yield`), though such a command has failed like any other.
-/
namespace TaskRunner

variable {σ : Type}

/-- What a run has come to between two of its steps. -/
structure Moment (σ : Type) where
  scope : Scope
  state : σ
  /-- The commands that were run so far, each with its status. -/
  ended : List (Call × Int)
deriving DecidableEq

namespace Moment

def start (t : Target) (state : σ) : Moment σ := ⟨t.globals, state, []⟩

/-- The status of the last command, or zero before the first one. -/
def status (m : Moment σ) : Int := (m.ended.getLast?.map Prod.snd).getD 0

/-- The run `r`, behind what was done so far. -/
def before (m : Moment σ) (r : Run σ) : Run σ :=
  { r with
    calls := m.ended.map Prod.fst ++ r.calls
    events := m.ended.flatMap (fun e => [.running e.1, .status e.2]) ++ r.events }

/-- The whole run, if these are the steps that are left. -/
def resume (runner : Runner σ) (args : List String) (steps : List Step) (m : Moment σ) : Run σ :=
  m.before (runSteps runner args steps m.scope m.status m.state)

/-- A command that is rendered and started. -/
def command (runner : Runner σ) (args : List String) (via : Interpreter) (template : String)
    (m : Moment σ) : Option (Moment σ) :=
  match Template.render (Scope.context args m.scope) template with
  | .error _ => none
  | .ok command =>
    match runner via command m.state with
    | (.error _, _) => none
    | (.ok status, state) =>
      some { m with state := state, ended := m.ended ++ [(⟨via, command⟩, status)] }

/-- What the step behind this one finds, if the run gets there. -/
def pass (runner : Runner σ) (args : List String) (m : Moment σ) : Step → Option (Moment σ)
  | .set name value => some { m with scope := m.scope.insert name value }
  | .run template => m.command runner args .shell template
  | .python template => m.command runner args .python template
  | .exit _ => none
  | .yield => if 0 < m.status then none else some m

/-- What the step behind all of these finds, if the run gets there. -/
def reach (runner : Runner σ) (args : List String) : List Step → Moment σ → Option (Moment σ)
  | [], m => some m
  | step :: rest, m => (m.pass runner args step).bind (reach runner args rest)

theorem status_snoc (scope : Scope) (state : σ) (ended : List (Call × Int)) (call : Call)
    (n : Int) :
    (Moment.mk scope state (ended ++ [(call, n)])).status = n := by
  simp [status]

/-! ## One step -/

variable (runner : Runner σ) (args : List String)

theorem before_afterCall (m : Moment σ) (call : Call) (n : Int) (state : σ) (r : Run σ) :
    m.before (.afterCall call [.running call, .status n] r) =
      (Moment.mk m.scope state (m.ended ++ [(call, n)])).before r := by
  simp [before, Run.afterCall]

/-- A command that has run is what the rest of the run starts from, and one that has not is the last
thing of the run. -/
theorem command_cases (m : Moment σ) (via : Interpreter) (template : String) :
    (∃ m', m.command runner args via template = some m' ∧ m'.scope = m.scope ∧
      ∀ next : Int → σ → Run σ,
        m.before (runCommand runner (Scope.context args m.scope) via template m.state next) =
          m'.before (next m'.status m'.state)) ∨
    (m.command runner args via template = none ∧ ∀ next next' : Int → σ → Run σ,
      runCommand runner (Scope.context args m.scope) via template m.state next =
        runCommand runner (Scope.context args m.scope) via template m.state next') := by
  unfold command runCommand
  cases Template.render (Scope.context args m.scope) template with
  | error e => exact .inr ⟨rfl, fun _ _ => rfl⟩
  | ok command =>
    dsimp only
    rcases runner via command m.state with ⟨_ | status, state⟩
    · exact .inr ⟨rfl, fun _ _ => rfl⟩
    · refine .inl ⟨_, rfl, rfl, fun next => ?_⟩
      rw [before_afterCall m _ status state, status_snoc]

/-- **Step.** A step that the run gets past leaves the rest of the run to what it has come to. -/
theorem resume_cons {m m' : Moment σ} {step : Step} (h : m.pass runner args step = some m')
    (rest : List Step) : m.resume runner args (step :: rest) = m'.resume runner args rest := by
  cases step with
  | set name value =>
    cases h
    rfl
  | run template | python template =>
    rcases command_cases runner args m _ template with ⟨m₁, hm, hscope, hnext⟩ | ⟨hm, -⟩
    · cases hm.symm.trans h
      rw [resume, runSteps, hnext, resume, hscope]
    · cases hm.symm.trans h
  | exit code => cases h
  | yield =>
    rw [pass] at h
    split at h
    · cases h
    · rename_i hstatus
      cases h
      rw [resume, runSteps, if_neg hstatus, resume]

/-- **Step.** Behind a step that the run does not get past, it makes no difference what there is. -/
theorem resume_cons_of_stopped {m : Moment σ} {step : Step} (h : m.pass runner args step = none)
    (rest rest' : List Step) :
    m.resume runner args (step :: rest) = m.resume runner args (step :: rest') := by
  cases step with
  | set name value => cases h
  | run template | python template =>
    rcases command_cases runner args m _ template with ⟨_, hm, -⟩ | ⟨-, hsame⟩
    · cases hm.symm.trans h
    · rw [resume, resume, runSteps, runSteps, hsame]
  | exit code => rfl
  | yield =>
    rw [pass] at h
    split at h
    · rename_i hstatus
      rw [resume, resume, runSteps, runSteps, if_pos hstatus, if_pos hstatus]
    · cases h

/-! ## All steps -/

/-- **Run.** A run can be cut in two wherever it gets to. -/
theorem resume_append {before : List Step} {m m' : Moment σ}
    (h : m.reach runner args before = some m') (after : List Step) :
    m.resume runner args (before ++ after) = m'.resume runner args after := by
  induction before generalizing m with
  | nil =>
    cases h
    rfl
  | cons step before ih =>
    obtain ⟨mid, hstep, hrest⟩ := Option.bind_eq_some_iff.1 h
    rw [List.cons_append, resume_cons runner args hstep, ih hrest]

/-- **Run.** What stands behind the end of a run makes no difference to it. -/
theorem resume_of_stopped {before : List Step} {m : Moment σ}
    (h : m.reach runner args before = none) (after after' : List Step) :
    m.resume runner args (before ++ after) = m.resume runner args (before ++ after') := by
  induction before generalizing m with
  | nil => cases h
  | cons step before ih =>
    rw [List.cons_append, List.cons_append]
    cases hstep : m.pass runner args step with
    | none => exact resume_cons_of_stopped runner args hstep _ _
    | some mid =>
      rw [reach, hstep, Option.bind_some] at h
      rw [resume_cons runner args hstep, resume_cons runner args hstep, ih h]

end Moment

/-- **A `yield` stops a run whose last command has a status above zero.** The run gets to the
`yield` behind the steps `before` it or it does not, and then it is the same whatever stands there.
If it gets there with a status above zero, it makes no other call and ends with that status;
otherwise it goes on with the steps behind the `yield`. -/
theorem Target.run_at_yield (runner : Runner σ) (args : List String) (t : Target) (state : σ)
    {before after : List Step} (hsteps : t.steps = before ++ .yield :: after) :
    (∀ m, (Moment.start t state).reach runner args before = some m →
      (0 < m.status → (t.run runner args state).calls = m.ended.map Prod.fst ∧
        (t.run runner args state).result = .ok m.status) ∧
      (m.status ≤ 0 → t.run runner args state = m.resume runner args after)) ∧
    ((Moment.start t state).reach runner args before = none → ∀ after',
      t.run runner args state = { t with steps := before ++ after' }.run runner args state) := by
  have hrun : ∀ steps, { t with steps := steps }.run runner args state =
      (Moment.start t state).resume runner args steps := fun _ => rfl
  have ht : t.run runner args state =
      (Moment.start t state).resume runner args (before ++ .yield :: after) := hsteps ▸ hrun _
  constructor
  · intro m hm
    rw [ht, Moment.resume_append runner args hm, Moment.resume, runSteps]
    constructor
    · intro hpos
      rw [if_pos hpos]
      simp [Moment.before, Run.finished]
    · intro hle
      rw [if_neg (Int.not_lt.2 hle), Moment.resume]
  · intro hm after'
    rw [ht, hrun]
    exact Moment.resume_of_stopped runner args hm _ _

theorem run_at_yield_guarded :
    (guarded.run Runner.scripted ["a"] [.ok 2]).calls = [⟨.shell, "make a"⟩] ∧
      (guarded.run Runner.scripted ["a"] [.ok 2]).result = .ok 2 := by
  have hreach : (Moment.start guarded [.ok 2]).reach Runner.scripted ["a"] [.run "make $0"] =
      some ⟨.empty, [], [(⟨.shell, "make a"⟩, 2)]⟩ := by decide +kernel
  exact ((guarded.run_at_yield Runner.scripted ["a"] [.ok 2] rfl).1 _ hreach).1 (by decide)

/-- A command that ended with a status below zero does not keep the `yield` behind it from going
on, and the run looks like one without a failure. -/
theorem run_past_negative_status :
    ∃ m, (Moment.start guarded [.ok (-1), .ok 0]).reach Runner.scripted ["a"] [.run "make $0"] =
        some m ∧ m.status = -1 ∧
      (guarded.run Runner.scripted ["a"] [.ok (-1), .ok 0]).calls =
        [⟨.shell, "make a"⟩, ⟨.shell, "ship a"⟩] ∧
      (guarded.run Runner.scripted ["a"] [.ok (-1), .ok 0]).result = .ok 0 :=
  ⟨⟨.empty, [.ok 0], [(⟨.shell, "make a"⟩, -1)]⟩, by decide +kernel⟩

end TaskRunner
