import Mathlib.Data.Rat.Floor
import TaskRunner.Proofs.Loop
import TaskRunner.Registry.Load
import TaskRunner.Run.Basic

/-!
# Running a script without loading it

A registry evaluates every expression of a script before anything runs, and a run puts the variables
together again from the globals of its target and the `set` steps. This file has an interpreter that
does neither: `Script.interpret` goes through the statements of a target as they are written, and
evaluates an expression when it gets there. For a script that can be loaded the two agree on every
call, on the result and on the state of the runner (`dispatch_eq_interpret`).

The load and the run keep a scope each. They are the same scope at every statement
(`runSteps_compileBody`), because both start from the globals at the target's definition.
-/
namespace TaskRunner

/-! ## Exit codes -/

namespace Number

/-- The integer part of a rational. -/
def towardsZero (q : ℚ) : Int := if 0 ≤ q then ⌊q⌋ else ⌈q⌉

/-- The nearest integer of 32 bits. -/
def saturate (z : Int) : Int := max (-2 ^ 31) (min z (2 ^ 31 - 1))

/-- The exact value of `± mantissa · 2 ^ exponent`. -/
def exact (negative : Bool) (mantissa : Nat) (exponent : Int) : ℚ :=
  (if negative then -1 else 1) * mantissa * 2 ^ exponent

/-- The exit code that a number stands for. -/
def code (x : Number) : Int :=
  match x.view with
  | .nan => 0
  | .infinite negative => if negative then -2 ^ 31 else 2 ^ 31 - 1
  | .finite negative m e => saturate (towardsZero (exact negative m e))

theorem floor_scaled (m : Nat) (e : Int) :
    ⌊(m : ℚ) * 2 ^ e⌋ =
      ((if 0 ≤ e then m <<< e.toNat else m >>> (-e).toNat : Nat) : Int) := by
  by_cases he : 0 ≤ e
  · obtain ⟨k, rfl⟩ := Int.eq_ofNat_of_zero_le he
    have hcast : (m : ℚ) * 2 ^ (k : Int) = ((m * 2 ^ k : Nat) : ℚ) := by simp
    rw [hcast, Int.floor_natCast, if_pos he, Int.toNat_natCast, Nat.shiftLeft_eq]
  · obtain ⟨k, hk⟩ := Int.eq_ofNat_of_zero_le (show 0 ≤ -e by omega)
    have hcast : (m : ℚ) * 2 ^ e = (m : ℚ) / ((2 ^ k : Nat) : ℚ) := by
      rw [show e = -(k : Int) by omega, zpow_neg, zpow_natCast, div_eq_mul_inv]
      simp
    rw [hcast, Rat.floor_natCast_div_natCast, if_neg he, hk, Int.toNat_natCast,
      Nat.shiftRight_eq_div_pow, Int.natCast_div]

theorem integerPart_eq_towardsZero (negative : Bool) (m : Nat) (e : Int) :
    integerPart negative m e = towardsZero (exact negative m e) := by
  have hpos : (0 : ℚ) ≤ m * 2 ^ e := mul_nonneg (Nat.cast_nonneg m) (zpow_nonneg (by norm_num) e)
  cases negative with
  | false => simp [integerPart, towardsZero, exact, hpos, floor_scaled]
  | true =>
    have hneg : exact true m e = -(m * 2 ^ e) := by simp [exact]
    have hceil : ⌈-((m : ℚ) * 2 ^ e)⌉ = -⌊(m : ℚ) * 2 ^ e⌋ := Int.ceil_neg
    by_cases hz : (m : ℚ) * 2 ^ e = 0
    · have := floor_scaled m e
      rw [hz, Int.floor_zero] at this
      simp [integerPart, towardsZero, hneg, hz, ← this]
    · have hlt : ¬ (0 : ℚ) ≤ -(m * 2 ^ e) := by
        have := lt_of_le_of_ne hpos (Ne.symm hz)
        linarith
      rw [towardsZero, hneg, if_neg hlt, hceil, floor_scaled]
      simp [integerPart]

theorem truncate_eq_code (x : Number) : x.truncate = x.code := by
  unfold truncate code
  cases x.view with
  | nan => rfl
  | infinite negative => cases negative <;> rfl
  | finite negative m e =>
    simp only [integerPart_eq_towardsZero, clamp, saturate]
    norm_num

end Number

/-! ## The interpreter -/

/-- Why an interpretation ended without a status: what can go wrong in a run, or an expression that
has no value of the kind that is needed. -/
inductive Fault where
  | run (e : RunError)
  | load (e : LoadError)
deriving DecidableEq, Repr

/-- What can be seen of an interpretation, and the runner's state after it. -/
structure Walk (σ : Type) where
  calls : List Call
  result : Except Fault Int
  state : σ
deriving DecidableEq

variable {σ : Type}

namespace Walk

/-- An interpretation that has nothing more to do. -/
def stop (result : Except Fault Int) (state : σ) : Walk σ := ⟨[], result, state⟩

/-- The interpretation `w`, with a call before it. -/
def after (call : Call) (w : Walk σ) : Walk σ := { w with calls := call :: w.calls }

end Walk

/-- A run without its log. -/
def Run.walk (r : Run σ) : Walk σ :=
  ⟨r.calls, match r.result with | .ok n => .ok n | .error e => .error (.run e), r.state⟩

/-- A line for an interpreter: rendered, handed over, and followed by `next` unless one of the two
fails. -/
def walkLine (runner : Runner σ) (ctx : Context) (via : Interpreter) (template : String) (state : σ)
    (next : Int → σ → Walk σ) : Walk σ :=
  match Template.render ctx template with
  | .error e => .stop (.error (.run (.template e))) state
  | .ok command =>
    match runner via command state with
    | (.error e, state) => .after ⟨via, command⟩ (.stop (.error (.run e)) state)
    | (.ok status, state) => .after ⟨via, command⟩ (next status state)

/-- Goes through the statements of a body, with the variables, the status and the runner's state as
they stand. -/
def walkBody (runner : Runner σ) (args : List String) : List Statement → Scope → Int → σ → Walk σ
  | [], _, status, state => .stop (.ok status) state
  | .comment _ :: rest, scope, status, state => walkBody runner args rest scope status state
  | .arg _ :: rest, scope, status, state => walkBody runner args rest scope status state
  | .assign a :: rest, scope, status, state =>
    match a.value.eval scope with
    | .error e => .stop (.error (.load (.evaluation a.line e))) state
    | .ok v => walkBody runner args rest (scope.insert a.name v) status state
  | .command template _ :: rest, scope, _, state =>
    walkLine runner (Scope.context args scope) .shell template state fun status state =>
      walkBody runner args rest scope status state
  | .python template _ :: rest, scope, _, state =>
    walkLine runner (Scope.context args scope) .python template state fun status state =>
      walkBody runner args rest scope status state
  | .exit none _ :: _, _, status, state => .stop (.ok status) state
  | .exit (some e) line :: _, scope, status, state =>
    match e.eval scope with
    | .error e => .stop (.error (.load (.evaluation line e))) state
    | .ok (.text s) => .stop (.error (.load (.exitCode line s))) state
    | .ok (.number x) => .stop (.ok (if 0 ≤ x.code then x.code else status)) state
  | .yield :: rest, scope, status, state =>
    if 0 < status then .stop (.ok status) state
    else walkBody runner args rest scope status state

/-- The definition of a target and the items before it. -/
def definition? (name : String) : List Item → Option (List Item × TargetDecl)
  | [] => none
  | .target t :: rest =>
    if t.name = name then some ([], t)
    else (definition? name rest).map fun d => (.target t :: d.1, d.2)
  | item :: rest => (definition? name rest).map fun d => (item :: d.1, d.2)

/-- The variables after the assignments among some items. -/
def assignAll (scope : Scope) : List Item → Except LoadError Scope
  | [] => .ok scope
  | .assign a :: rest =>
    match a.value.eval scope with
    | .error e => .error (.evaluation a.line e)
    | .ok v => assignAll (scope.insert a.name v) rest
  | _ :: rest => assignAll scope rest

/-- Interprets the target of that name, if there is one. -/
def Script.interpret (runner : Runner σ) (script : Script) (name : String) (args : List String)
    (state : σ) : Walk σ :=
  match definition? name script.items with
  | none => .stop (.error (.run (.unknownTarget name))) state
  | some (before, t) =>
    match assignAll .empty before with
    | .error e => .stop (.error (.load e)) state
    | .ok globals => walkBody runner args t.body globals 0 state

/-! ## A body and its steps -/

theorem evalAt_eq_ok {scope : Scope} {line : Nat} {e : Expr} {v : Value}
    (h : e.evalAt scope line = .ok v) : e.eval scope = .ok v := by
  unfold Expr.evalAt at h
  split at h
  · rename_i w hw
    cases h
    exact hw
  · cases h

theorem compileBody_cons {scope : Scope} {s : Statement} {rest : List Statement}
    {steps : List Step} (h : compileBody scope (s :: rest) = .ok steps) :
    ∃ scope' step tail, s.compile scope = .ok (scope', step) ∧
      compileBody scope' rest = .ok tail ∧ steps = step.toList ++ tail := by
  simp only [compileBody] at h
  split at h
  · cases h
  · rename_i scope' step hs
    split at h
    · cases h
    · rename_i tail ht
      cases h
      exact ⟨scope', step, tail, hs, ht, rfl⟩

theorem compile_assign {scope scope' : Scope} {a : Assignment} {step : Option Step}
    (h : (Statement.assign a).compile scope = .ok (scope', step)) :
    ∃ v, a.value.eval scope = .ok v ∧ scope' = scope.insert a.name v ∧
      step = some (.set a.name v) := by
  simp only [Statement.compile] at h
  split at h
  · rename_i v hv
    cases h
    exact ⟨v, evalAt_eq_ok hv, rfl, rfl⟩
  · cases h

theorem compile_exit_some {scope scope' : Scope} {e : Expr} {line : Nat} {step : Option Step}
    (h : (Statement.exit (some e) line).compile scope = .ok (scope', step)) :
    ∃ x, e.eval scope = .ok (.number x) ∧ step = some (.exit (some x.truncate)) := by
  simp only [Statement.compile] at h
  split at h
  · cases h
  · rename_i v hv
    cases v with
    | text s => cases h
    | number x =>
      cases h
      exact ⟨x, evalAt_eq_ok hv, rfl⟩

theorem runCommand_walk (runner : Runner σ) (ctx : Context) (via : Interpreter) (template : String)
    (state : σ) {next : Int → σ → Run σ} {next' : Int → σ → Walk σ}
    (h : ∀ status state, (next status state).walk = next' status state) :
    (runCommand runner ctx via template state next).walk =
      walkLine runner ctx via template state next' := by
  unfold runCommand walkLine
  cases Template.render ctx template with
  | error e => rfl
  | ok command =>
    simp only
    rcases runner via command state with ⟨reply, state'⟩
    cases reply with
    | error e => rfl
    | ok status =>
      simp only [← h]
      rfl

/-- **The steps of a body do what its statements say**, from any scope, status and state. -/
theorem runSteps_compileBody (runner : Runner σ) (args : List String) (body : List Statement) :
    ∀ (scope : Scope) (steps : List Step) (status : Int) (state : σ),
      compileBody scope body = .ok steps →
      (runSteps runner args steps scope status state).walk =
        walkBody runner args body scope status state := by
  induction body with
  | nil =>
    intro scope steps status state h
    cases h
    rfl
  | cons s rest ih =>
    intro scope steps status state h
    obtain ⟨scope', step, tail, hs, ht, rfl⟩ := compileBody_cons h
    cases s with
    | comment text => cases hs; exact ih _ _ _ _ ht
    | arg a => cases hs; exact ih _ _ _ _ ht
    | assign a =>
      obtain ⟨v, hv, rfl, rfl⟩ := compile_assign hs
      simp only [walkBody, hv]
      exact ih _ _ _ _ ht
    | command template line =>
      cases hs
      exact runCommand_walk _ _ _ _ _ fun status state => ih _ _ _ _ ht
    | python template line =>
      cases hs
      exact runCommand_walk _ _ _ _ _ fun status state => ih _ _ _ _ ht
    | exit code line =>
      cases code with
      | none => cases hs; rfl
      | some e =>
        obtain ⟨x, hx, rfl⟩ := compile_exit_some hs
        simp only [walkBody, hx, ← Number.truncate_eq_code]
        rfl
    | yield =>
      cases hs
      simp only [Option.toList_some, List.singleton_append, runSteps, walkBody]
      by_cases hpos : 0 < status
      · rw [if_pos hpos, if_pos hpos]; rfl
      · rw [if_neg hpos, if_neg hpos]; exact ih _ _ _ _ ht

/-! ## A script and its registry -/

theorem TargetDecl.compile_eq_ok {globals : Scope} {t : TargetDecl} {target : Target}
    (h : t.compile globals = .ok target) :
    target.name = t.name ∧ target.globals = globals ∧
      compileBody globals t.body = .ok target.steps := by
  unfold TargetDecl.compile at h
  split at h
  · rename_i steps hs
    cases h
    exact ⟨rfl, rfl, hs⟩
  · cases h

namespace Registry

theorem register_eq_ok {r r' : Registry} {t : Target} (h : r.register t = .ok r') :
    r.get? t.name = none ∧ r' = { r with targets := r.targets ++ [t] } := by
  rw [register_eq] at h
  split at h
  · cases h
  · rename_i hnone
    cases h
    exact ⟨by simpa using hnone, rfl⟩

theorem get?_register {r r' : Registry} {t : Target} (h : r.register t = .ok r') (name : String) :
    r'.get? name = if t.name = name then some t else r.get? name := by
  obtain ⟨hnone, rfl⟩ := register_eq_ok h
  simp only [get?, List.find?_append] at hnone ⊢
  by_cases hn : t.name = name
  · subst hn; simp [hnone]
  · simp [hn]

/-- What one item does to the globals and to the look-up of a name. -/
theorem addItem_cases {r r' : Registry} {g g' : Scope} {item : Item}
    (h : addItem (r, g) item = .ok (r', g')) :
    (∃ text, item = .comment text ∧ r' = r ∧ g' = g) ∨
    (∃ a v, item = .assign a ∧ a.value.eval g = .ok v ∧ r' = r ∧ g' = g.insert a.name v) ∨
    ∃ t target, item = .target t ∧ t.compile g = .ok target ∧ r.register target = .ok r' ∧
      g' = g := by
  cases item with
  | comment text => cases h; exact .inl ⟨text, rfl, rfl, rfl⟩
  | assign a =>
    simp only [addItem] at h
    split at h
    · rename_i v hv
      cases h
      exact .inr (.inl ⟨a, v, rfl, evalAt_eq_ok hv, rfl, rfl⟩)
    · cases h
  | target t =>
    simp only [addItem] at h
    split at h
    · cases h
    · rename_i target ht
      split at h
      · rename_i r'' hr
        cases h
        exact .inr (.inr ⟨t, target, rfl, ht, hr, rfl⟩)
      · cases h

/-- A name that is taken stays with its target. -/
theorem get?_foldlM {name : String} {target : Target} : ∀ {items : List Item}
    {r r' : Registry} {g g' : Scope}, items.foldlM addItem (r, g) = .ok (r', g') →
    r.get? name = some target → r'.get? name = some target
  | [], _, _, _, _, h, ht => by cases h; exact ht
  | item :: items, r, r', g, g', h, ht => by
    obtain ⟨⟨r₁, g₁⟩, hi, hrest⟩ := foldlM_cons_eq_ok.1 h
    refine get?_foldlM hrest ?_
    obtain ⟨_, _, rfl, _⟩ | ⟨_, _, _, _, rfl, _⟩ | ⟨t, new, _, _, hr, _⟩ := addItem_cases hi
    · exact ht
    · exact ht
    · rw [get?_register hr, if_neg ?_]
      · exact ht
      · rintro rfl
        rw [(register_eq_ok hr).1] at ht
        cases ht

/-- **A name is bound to what its definition compiles to**, in the scope of the assignments before
the definition. -/
theorem get?_eq_definition {name : String} : ∀ {items : List Item} {r r' : Registry}
    {g g' : Scope}, items.foldlM addItem (r, g) = .ok (r', g') → r.get? name = none →
    match definition? name items with
    | none => r'.get? name = none
    | some (before, t) => ∃ scope target, assignAll g before = .ok scope ∧
        t.compile scope = .ok target ∧ r'.get? name = some target
  | [], _, _, _, _, h, hnone => by cases h; exact hnone
  | item :: items, r, r', g, g', h, hnone => by
    obtain ⟨⟨r₁, g₁⟩, hi, hrest⟩ := foldlM_cons_eq_ok.1 h
    obtain ⟨text, rfl, rfl, rfl⟩ | ⟨a, v, rfl, hv, rfl, rfl⟩ | ⟨t, target, rfl, ht, hr, rfl⟩ :=
      addItem_cases hi
    · have ih := get?_eq_definition hrest hnone
      simp only [definition?]
      cases hd : definition? name items <;> simp_all [assignAll]
    · have ih := get?_eq_definition hrest hnone
      simp only [definition?]
      cases hd : definition? name items <;> simp_all [assignAll]
    · have hname := (TargetDecl.compile_eq_ok ht).1
      have hget := get?_register hr name
      simp only [definition?]
      by_cases hn : t.name = name
      · rw [if_pos hn]
        rw [if_pos (hname.trans hn)] at hget
        exact ⟨_, target, rfl, ht, get?_foldlM hrest hget⟩
      · rw [if_neg hn]
        rw [if_neg (by rwa [hname])] at hget
        have ih := get?_eq_definition hrest (hget.trans hnone)
        cases hd : definition? name items <;> simp_all [assignAll]

end Registry

/-- **Loading and then dispatching is interpreting.** For a script that can be loaded, a target of
the registry makes the calls that the interpreter makes, ends as it ends, and leaves the runner in
the same state. -/
theorem dispatch_eq_interpret {script : Script} {r : Registry} (h : Registry.load script = .ok r)
    (runner : Runner σ) (name : String) (args : List String) (state : σ) :
    (r.dispatch runner name args state).walk = script.interpret runner name args state := by
  unfold Registry.load at h
  split at h
  · rename_i r' g hfold
    cases h
    have hget := @Registry.get?_eq_definition name script.items _ _ _ _ hfold rfl
    unfold Registry.dispatch Script.interpret
    cases hd : definition? name script.items with
    | none =>
      rw [hd] at hget
      simp only [hget]
      rfl
    | some d =>
      obtain ⟨before, t⟩ := d
      rw [hd] at hget
      obtain ⟨scope, target, hassign, hcompile, hsome⟩ := hget
      obtain ⟨-, hglobals, hsteps⟩ := TargetDecl.compile_eq_ok hcompile
      simp only [hsome, hassign, Target.run, hglobals]
      exact runSteps_compileBody runner args t.body scope target.steps 0 state hsteps
  · cases h

/-- A target that overwrites a variable of the top level between two commands. -/
def shadowing : Script :=
  ⟨none, [.assign ⟨"x", .text "a", 1⟩,
    .target ⟨"t", none,
      [.command "echo $x" 3, .assign ⟨"x", .binary .add (.var "x") (.text "b"), 4⟩,
        .command "echo $x $0" 5, .yield,
        .exit (some (.negate (.number ⟨0x3ff0000000000000⟩))) 7], 2⟩]⟩

def shadowingRegistry : Registry :=
  ⟨none, [⟨"t", none, [], ⟨[("x", .text "a")]⟩,
    [.run "echo $x", .set "x" (.text "ab"), .run "echo $x $0", .yield, .exit (some (-1))]⟩]⟩

theorem dispatch_shadowing :
    Registry.load shadowing = .ok shadowingRegistry ∧
      (shadowingRegistry.dispatch Runner.scripted "t" ["v"] [.ok 0, .ok 7]).walk =
        shadowing.interpret Runner.scripted "t" ["v"] [.ok 0, .ok 7] ∧
      shadowing.interpret Runner.scripted "t" ["v"] [.ok 0, .ok 7] =
        ⟨[⟨.shell, "echo a"⟩, ⟨.shell, "echo ab v"⟩], .ok 7, []⟩ :=
  ⟨rfl, dispatch_eq_interpret rfl _ _ _ _, by decide +kernel⟩

end TaskRunner
