import TaskRunner.Cli.Program
import TaskRunner.Proofs.ControlFlow
import TaskRunner.Proofs.Interpretation

/-!
# What the caller sees of a status

The program ends with the status of the run, of which the caller sees the remainder modulo 256. The
statuses of processes are below that, and a run ends with one of those unless an `exit` of its target
says otherwise (`runSteps_origin`). An `exit` takes the code of any number that is not negative, and
codes go up to 31 bits (`exit_mem_compileBody`). So what the caller sees is zero for a status that is
not in one case: the target ends with an `exit` whose code is a multiple of 256
(`Registry.dispatch_exitCode`). That case does occur, and a target that has failed then looks like
one that has not (`dispatch_failure_hidden`).
-/
namespace TaskRunner

variable {σ : Type}

/-- Every status that the runner gives is one that a process can end with. -/
def Runner.GivesBytes (runner : Runner σ) : Prop :=
  ∀ via command state status, (runner via command state).1 = .ok status →
    0 ≤ status ∧ status ≤ 255

/-! ## Where the status of a run comes from -/

/-- A status of a process, or the code of one of the steps. -/
def Origin (steps : List Step) (code : Int) : Prop :=
  0 ≤ code ∧ (code ≤ 255 ∨ .exit (some code) ∈ steps)

theorem Origin.tail {step : Step} {steps : List Step} {code : Int} (h : Origin steps code) :
    Origin (step :: steps) code :=
  ⟨h.1, h.2.imp_right (List.mem_cons_of_mem step)⟩

/-- **Step.** What is true of the status of every run that goes on behind a command is true of the
status of the run with the command. -/
theorem runCommand_result {runner : Runner σ} (hrunner : runner.GivesBytes) {ctx : Context}
    {via : Interpreter} {template : String} {state : σ} {next : Int → σ → Run σ} {code : Int}
    {P : Int → Prop}
    (hnext : ∀ status state, 0 ≤ status → status ≤ 255 → (next status state).result = .ok code →
      P code)
    (h : (runCommand runner ctx via template state next).result = .ok code) : P code := by
  unfold runCommand at h
  cases hrender : Template.render ctx template with
  | error e =>
    rw [hrender] at h
    cases h
  | ok command =>
    cases hreply : runner via command state with
    | mk reply state' =>
      simp only [hrender, hreply] at h
      cases reply with
      | error e => cases h
      | ok status =>
        obtain ⟨hlow, hhigh⟩ := hrunner via command state status (by rw [hreply])
        exact hnext status state' hlow hhigh h

theorem exitStatus_origin {code : Option Int} {status : Int} (hlow : 0 ≤ status)
    (hhigh : status ≤ 255) (rest : List Step) :
    Origin (.exit code :: rest) (exitStatus code status) := by
  cases code with
  | none => exact ⟨hlow, .inl hhigh⟩
  | some c =>
    by_cases hc : 0 ≤ c
    · simp only [exitStatus, if_pos hc]
      exact ⟨hc, .inr List.mem_cons_self⟩
    · simp only [exitStatus, if_neg hc]
      exact ⟨hlow, .inl hhigh⟩

/-- **Run.** From a status of a process on, a run ends with such a status or with the code of one of
its steps. -/
theorem runSteps_origin {runner : Runner σ} (hrunner : runner.GivesBytes) (args : List String)
    (steps : List Step) : ∀ (scope : Scope) (status : Int) (state : σ) {code : Int},
    0 ≤ status → status ≤ 255 → (runSteps runner args steps scope status state).result = .ok code →
    Origin steps code := by
  induction steps with
  | nil =>
    intro scope status state code hlow hhigh h
    cases h
    exact ⟨hlow, .inl hhigh⟩
  | cons step rest ih =>
    intro scope status state code hlow hhigh h
    cases step with
    | set name value => exact (ih _ _ _ hlow hhigh h).tail
    | run template | python template =>
      exact runCommand_result hrunner (fun status' state' hlow' hhigh' h' =>
        (ih scope status' state' hlow' hhigh' h').tail) h
    | exit c =>
      cases h
      exact exitStatus_origin hlow hhigh rest
    | yield =>
      rw [runSteps] at h
      split at h
      · cases h
        exact ⟨hlow, .inl hhigh⟩
      · exact (ih _ _ _ hlow hhigh h).tail

/-! ## Where the code of a step comes from -/

/-- The code of a step is that of an `exit` of the body, with the number that its expression had. -/
theorem exit_mem_compileBody {body : List Statement} {code : Int} : ∀ {scope : Scope}
    {steps : List Step}, compileBody scope body = .ok steps → .exit (some code) ∈ steps →
    ∃ e line, .exit (some e) line ∈ body ∧
      ∃ scope' x, e.eval scope' = .ok (.number x) ∧ code = x.code := by
  induction body with
  | nil =>
    intro scope steps h hmem
    cases h
    cases hmem
  | cons s rest ih =>
    intro scope steps h hmem
    obtain ⟨scope', step, tail, hs, ht, rfl⟩ := compileBody_cons h
    rcases List.mem_append.1 hmem with hmem | hmem
    · obtain rfl : step = some (.exit (some code)) := by simpa using hmem
      cases s with
      | exit c line =>
        cases c with
        | none => cases hs
        | some e =>
          obtain ⟨x, hx, hstep⟩ := compile_exit_some hs
          cases hstep
          exact ⟨e, line, List.mem_cons_self, scope, x, hx, x.truncate_eq_code⟩
      | assign a =>
        obtain ⟨v, -, -, hstep⟩ := compile_assign hs
        cases hstep
      | comment text | arg a | command template line | python template line | yield => cases hs
    · obtain ⟨e, line, he, hcode⟩ := ih ht hmem
      exact ⟨e, line, List.mem_cons_of_mem s he, hcode⟩

theorem mem_of_definition? {name : String} {items before : List Item} {t : TargetDecl}
    (h : definition? name items = some (before, t)) : .target t ∈ items ∧ t.name = name := by
  fun_induction definition? name items generalizing before with
  | case1 => cases h
  | case2 t' rest hname =>
    cases h
    exact ⟨List.mem_cons_self, hname⟩
  | case3 t' rest _ ih =>
    obtain ⟨⟨before', t''⟩, hd, he⟩ := Option.map_eq_some_iff.1 h
    cases he
    exact ⟨List.mem_cons_of_mem _ (ih hd).1, (ih hd).2⟩
  | case4 item rest _ ih =>
    obtain ⟨⟨before', t''⟩, hd, he⟩ := Option.map_eq_some_iff.1 h
    cases he
    exact ⟨List.mem_cons_of_mem _ (ih hd).1, (ih hd).2⟩

namespace Registry

/-- A target of a registry is what a target of the script was compiled to. -/
theorem compile_of_get? {script : Script} {r : Registry} (hload : load script = .ok r)
    {name : String} {target : Target} (h : r.get? name = some target) :
    ∃ t, .target t ∈ script.items ∧ t.name = name ∧ ∃ scope, t.compile scope = .ok target := by
  unfold load at hload
  split at hload
  · rename_i r' g hfold
    cases hload
    have hget := @get?_eq_definition name script.items _ _ _ _ hfold rfl
    cases hd : definition? name script.items with
    | none =>
      rw [hd] at hget
      cases hget.symm.trans h
    | some d =>
      obtain ⟨before, t⟩ := d
      rw [hd] at hget
      obtain ⟨scope, target', -, hcompile, hsome⟩ := hget
      cases hsome.symm.trans h
      obtain ⟨hmem, hname⟩ := mem_of_definition? hd
      exact ⟨t, hmem, hname, scope, hcompile⟩
  · cases hload

end Registry

/-! ## What the caller sees -/

theorem Cli.exitCode_eq (status : Int) : (Cli.exitCode status : Int) = status % 256 := by
  unfold Cli.exitCode
  omega

/-- **What the caller sees of a status.** A run with a runner of processes has a status that is not
negative, of which the caller sees the remainder modulo 256. If that is zero though the status is
not, the status is a multiple of 256 from an `exit` of the target: the code of the number that its
expression had. -/
theorem Registry.dispatch_exitCode {script : Script} {r : Registry}
    (hload : Registry.load script = .ok r) {runner : Runner σ} (hrunner : runner.GivesBytes)
    {name : String} {args : List String} {state : σ} {code : Int}
    (h : (r.dispatch runner name args state).result = .ok code) (printed : Output) :
    0 ≤ code ∧
    ((Cli.Outcome.ofResult printed (r.dispatch runner name args state).result).code : Int) =
      code % 256 ∧
    (code ≠ 0 → (Cli.Outcome.ofResult printed (r.dispatch runner name args state).result).code = 0 →
      256 ≤ code ∧ 256 ∣ code ∧
      ∃ t e line, .target t ∈ script.items ∧ t.name = name ∧ .exit (some e) line ∈ t.body ∧
        ∃ scope x, e.eval scope = .ok (.number x) ∧ code = x.code) := by
  have hseen : ((Cli.Outcome.ofResult printed
      (r.dispatch runner name args state).result).code : Int) = code % 256 := by
    rw [h]
    exact Cli.exitCode_eq code
  cases hget : r.get? name with
  | none =>
    simp only [dispatch, hget] at h
    cases h
  | some target =>
    have horigin : Origin target.steps code := by
      simp only [dispatch, hget] at h
      exact runSteps_origin hrunner args target.steps target.globals 0 state (by omega) (by omega) h
    refine ⟨horigin.1, hseen, fun hne hzero => ?_⟩
    rw [hzero] at hseen
    have hlow := horigin.1
    have hlarge : 256 ≤ code := by omega
    refine ⟨hlarge, by omega, ?_⟩
    -- no process ends with such a status, so it is the code of a step
    have hstep : .exit (some code) ∈ target.steps := horigin.2.resolve_left (by omega)
    obtain ⟨t, hmem, hname, scope, hcompile⟩ := compile_of_get? hload hget
    obtain ⟨-, -, hsteps⟩ := TargetDecl.compile_eq_ok hcompile
    obtain ⟨e, line, hbody, hcode⟩ := exit_mem_compileBody hsteps hstep
    exact ⟨t, e, line, hmem, hname, hbody, hcode⟩

theorem Runner.givesBytes_succeeding : Runner.succeeding.GivesBytes := by
  intro via command state status h
  cases h
  exact ⟨by decide, by decide⟩

/-- A target that ends with a code that does not fit in a byte. -/
def farExit : String := "t \x7b\n  exit 256\n\x7d\n"

def farScript : Script :=
  ⟨none, [.target ⟨"t", none, [.exit (some (.number ⟨0x4070000000000000⟩)) 2], 1⟩]⟩

def farRegistry : Registry := ⟨none, [⟨"t", none, [], .empty, [.exit (some 256)]⟩]⟩

theorem dispatch_exitCode_farExit :
    Registry.load farScript = .ok farRegistry ∧ Runner.succeeding.GivesBytes ∧
      (farRegistry.dispatch Runner.succeeding "t" [] ()).result = .ok 256 ∧
      256 ∣ (256 : Int) ∧
      ∃ t e line, .target t ∈ farScript.items ∧ t.name = "t" ∧ .exit (some e) line ∈ t.body ∧
        ∃ scope x, e.eval scope = .ok (.number x) ∧ 256 = x.code := by
  have hload : Registry.load farScript = .ok farRegistry := by decide +kernel
  have hresult : (farRegistry.dispatch Runner.succeeding "t" [] ()).result = .ok 256 := rfl
  have hseen := (Registry.dispatch_exitCode hload Runner.givesBytes_succeeding hresult .none).2.2
  obtain ⟨-, hdvd, hexit⟩ := hseen (by decide) rfl
  exact ⟨hload, Runner.givesBytes_succeeding, hresult, hdvd, hexit⟩

/-- A target that ends with the status 256 looks to the caller like one that has not failed, on any
machine. -/
theorem dispatch_failure_hidden :
    ∃ script r, Script.parse farExit none = .ok script ∧ Registry.load script = .ok r ∧
      Runner.succeeding.GivesBytes ∧
      (r.dispatch Runner.succeeding "t" [] ()).result = .ok 256 ∧
      (Cli.Outcome.ofResult .none (r.dispatch Runner.succeeding "t" [] ()).result).code = 0 ∧
      ∀ h : Host, (Cli.runTarget h r "t" []).code = 0 :=
  ⟨farScript, farRegistry, by decide +kernel, by decide +kernel, Runner.givesBytes_succeeding, rfl,
    rfl, fun _ => rfl⟩

end TaskRunner
