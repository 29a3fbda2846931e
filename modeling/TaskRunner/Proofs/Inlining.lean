import TaskRunner.Proofs.Causality
import TaskRunner.Proofs.Faults

/-!
# A variable and what was assigned to it

An expression may have `d` in place of a variable whose value is that of `d` (`Expr.eval_subst`). In
a script this is so from the assignment `x = d` on, up to the next assignment to `x` or to a
variable of `d`: `Scope.Equates` is what the assignment brings about and every other statement
keeps. So in one scope, which is the top level or the body of a target, an expression in reach of
the assignment may have `d` for `x`, and the script loads as before, or fails with the same error
(`inlining_preserves`).
-/
namespace TaskRunner

/-! ## Expressions -/

namespace Expr

/-- The expression with `d` for every occurrence of the variable `x`. -/
def subst (e : Expr) (x : String) (d : Expr) : Expr :=
  match e with
  | .number n => .number n
  | .text s => .text s
  | .var name => if name = x then d else .var name
  | .negate e => .negate (e.subst x d)
  | .binary op l r => .binary op (l.subst x d) (r.subst x d)

/-- The variable occurs in the expression. -/
def Mentions (e : Expr) (name : String) : Prop := .var name ∈ e.nodes

instance (e : Expr) (name : String) : Decidable (e.Mentions name) :=
  inferInstanceAs (Decidable (.var name ∈ e.nodes))

/-- **Substitution.** What a variable is replaced by may as well be bound to it. -/
theorem eval_subst {scope : Scope} {x : String} {d : Expr} {v : Value} (hd : d.eval scope = .ok v)
    (e : Expr) : (e.subst x d).eval scope = e.eval (scope.insert x v) := by
  induction e with
  | number n => rfl
  | text s => rfl
  | var name =>
    by_cases hname : name = x
    · simp [subst, eval, hname, hd]
    · simp [subst, eval, hname]
  | negate e ih => simp only [subst, eval, ih]
  | binary op l r ihl ihr => simp only [subst, eval, ihl, ihr]

/-- Only the variables that occur in an expression have a say in its value. -/
theorem eval_congr {scope scope' : Scope} {e : Expr}
    (h : ∀ name, e.Mentions name → scope.get? name = scope'.get? name) :
    e.eval scope = e.eval scope' := by
  induction e with
  | number n => rfl
  | text s => rfl
  | var name =>
    have hname := h name (by simp [Mentions, nodes])
    simp only [eval, hname]
  | negate e ih =>
    have he := ih fun name hm => h name (by simpa [Mentions, nodes] using hm)
    simp only [eval, he]
  | binary op l r ihl ihr =>
    have hl := ihl fun name hm => h name (by simpa [Mentions, nodes] using .inl hm)
    have hr := ihr fun name hm => h name (by simpa [Mentions, nodes] using .inr hm)
    simp only [eval, hl, hr]

theorem eval_insert_of_not_mentions {scope : Scope} {name : String} {d : Expr}
    (h : ¬ d.Mentions name) (w : Value) : d.eval (scope.insert name w) = d.eval scope := by
  apply eval_congr
  intro m hm
  have hne : m ≠ name := by
    rintro rfl
    exact h hm
  simp [hne]

end Expr

/-! ## Scopes -/

/-- The variable `x` has the value that `d` has here. -/
def Scope.Equates (scope : Scope) (x : String) (d : Expr) : Prop :=
  ∃ v, scope.get? x = some v ∧ d.eval scope = .ok v

/-- What is assigned to, if anything is, is neither `x` nor a variable of `d`. -/
def Expr.Spared (d : Expr) (x : String) (assigned : Option String) : Prop :=
  ∀ name ∈ assigned, name ≠ x ∧ ¬ d.Mentions name

namespace Scope.Equates

variable {scope : Scope} {x : String} {d : Expr}

theorem of_insert {v : Value} (hd : d.eval scope = .ok v) (hx : ¬ d.Mentions x) :
    Equates (scope.insert x v) x d :=
  ⟨v, by simp, by rw [Expr.eval_insert_of_not_mentions hx, hd]⟩

theorem insert {name : String} (h : scope.Equates x d) (hname : d.Spared x (some name))
    (w : Value) : Equates (scope.insert name w) x d := by
  obtain ⟨v, hx, hd⟩ := h
  obtain ⟨hne, hfree⟩ := hname name rfl
  refine ⟨v, ?_, by rw [Expr.eval_insert_of_not_mentions hfree, hd]⟩
  simp [Ne.symm hne, hx]

/-- An expression may have one for the other. -/
theorem eval_subst (h : scope.Equates x d) (e : Expr) :
    (e.subst x d).eval scope = e.eval scope := by
  obtain ⟨v, hx, hd⟩ := h
  rw [Expr.eval_subst hd]
  apply Expr.eval_congr
  intro name _
  by_cases hname : name = x
  · simp [hname, hx]
  · simp [hname]

theorem evalAt_subst (h : scope.Equates x d) (line : Nat) (e : Expr) :
    (e.subst x d).evalAt scope line = e.evalAt scope line := by
  rw [Expr.evalAt, Expr.evalAt, h.eval_subst]

end Scope.Equates

/-! ## The body of a target -/

namespace Statement

/-- The statement with `d` for the variable in its expression, if it has one. -/
def subst (x : String) (d : Expr) : Statement → Statement
  | .assign a => .assign { a with value := a.value.subst x d }
  | .exit (some code) line => .exit (some (code.subst x d)) line
  | s => s

/-- The name that a statement assigns to. -/
def assigned? : Statement → Option String
  | .assign a => some a.name
  | _ => none

variable {scope scope' : Scope} {x : String} {d : Expr} {s : Statement} {step : Option Step}

/-- **Step.** The statement has the same step either way. -/
theorem compile_subst (h : scope.Equates x d) (s : Statement) :
    (s.subst x d).compile scope = s.compile scope := by
  cases s with
  | assign a => simp only [subst, compile, h.evalAt_subst]
  | exit code line =>
    cases code with
    | none => rfl
    | some code => simp only [subst, compile, h.evalAt_subst]
  | comment text | arg a | command template line | python template line | yield => rfl

/-- Only an assignment has an effect on the scope. -/
theorem compile_scope (hc : s.compile scope = .ok (scope', step)) :
    (∃ a v, s = .assign a ∧ scope' = scope.insert a.name v) ∨ scope' = scope := by
  cases s with
  | assign a =>
    obtain ⟨v, -, hscope, -⟩ := compile_assign hc
    exact .inl ⟨a, v, rfl, hscope⟩
  | exit code line =>
    right
    cases code with
    | none =>
      cases hc
      rfl
    | some code =>
      simp only [compile] at hc
      split at hc
      · cases hc
      · split at hc
        · cases hc
          rfl
        · cases hc
  | comment text | arg a | command template line | python template line | yield =>
    cases hc
    exact .inr rfl

/-- **Step.** What is equal stays equal behind a statement that assigns to neither side. -/
theorem equates_compile (h : scope.Equates x d) (hs : d.Spared x s.assigned?)
    (hc : s.compile scope = .ok (scope', step)) : scope'.Equates x d := by
  rcases compile_scope hc with ⟨a, v, rfl, rfl⟩ | rfl
  · exact h.insert hs v
  · exact h

theorem arg?_subst (x : String) (d : Expr) (s : Statement) : (s.subst x d).arg? = s.arg? := by
  cases s with
  | exit code line => cases code <;> rfl
  | comment text | assign a | arg a | command template line | python template line | yield => rfl

end Statement

/-- Two bodies that begin alike have the same steps if their ends have, from every scope that the
common part leads to. -/
theorem compileBody_append_congr {rest rest' : List Statement} (I : Scope → Prop)
    (hrest : ∀ scope, I scope → compileBody scope rest = compileBody scope rest') :
    ∀ {before : List Statement}, (∀ s ∈ before, ∀ scope scope' step, I scope →
      s.compile scope = .ok (scope', step) → I scope') →
    ∀ {scope : Scope}, I scope →
      compileBody scope (before ++ rest) = compileBody scope (before ++ rest')
  | [], _, scope, h => hrest scope h
  | s :: before, hkeep, scope, h => by
    simp only [List.cons_append, compileBody]
    cases hs : s.compile scope with
    | error e => rfl
    | ok next =>
      obtain ⟨scope', step⟩ := next
      have hnext := hkeep s (by simp) scope scope' step h hs
      have ih : compileBody scope' (before ++ rest) = compileBody scope' (before ++ rest') :=
        compileBody_append_congr I hrest (fun s' hs' => hkeep s' (by simp [hs'])) hnext
      simp only [ih]

/-- **Run.** A statement behind `x = d` may have `d` for `x`, if neither is assigned to in
between. -/
theorem compileBody_inlined {before between after : List Statement} {a : Assignment}
    {s : Statement} (hself : ¬ a.value.Mentions a.name)
    (hbetween : ∀ m ∈ between, a.value.Spared a.name m.assigned?) (scope : Scope) :
    compileBody scope (before ++ .assign a :: (between ++ s.subst a.name a.value :: after)) =
      compileBody scope (before ++ .assign a :: (between ++ s :: after)) := by
  refine compileBody_append_congr (fun _ => True) (fun scope _ => ?_) (by simp) trivial
  simp only [compileBody]
  cases ha : (Statement.assign a).compile scope with
  | error e => rfl
  | ok next =>
    obtain ⟨scope₁, step⟩ := next
    obtain ⟨v, hv, rfl, -⟩ := compile_assign ha
    have hbody : compileBody (scope.insert a.name v)
          (between ++ s.subst a.name a.value :: after) =
        compileBody (scope.insert a.name v) (between ++ s :: after) := by
      refine compileBody_append_congr (Scope.Equates · a.name a.value) (fun mid hmid => ?_)
        (fun m hm mid mid' step hmid hc => Statement.equates_compile hmid (hbetween m hm) hc)
        (.of_insert hv hself)
      simp only [compileBody, Statement.compile_subst hmid]
    simp only [hbody]

/-! ## The top level -/

namespace Item

/-- The item with `d` for the variable in its expression, if it has one of its own. -/
def subst (x : String) (d : Expr) : Item → Item
  | .assign a => .assign { a with value := a.value.subst x d }
  | item => item

/-- The name that an item assigns to. What a target assigns to is not seen outside of it. -/
def assigned? : Item → Option String
  | .assign a => some a.name
  | _ => none

end Item

namespace Registry

variable {st st' : Registry × Scope} {x : String} {d : Expr} {item : Item}

/-- **Step.** The item is loaded alike either way. -/
theorem addItem_subst (h : st.2.Equates x d) (item : Item) :
    addItem st (item.subst x d) = addItem st item := by
  obtain ⟨r, globals⟩ := st
  cases item with
  | assign a => simp only [Item.subst, addItem, h.evalAt_subst]
  | comment text | target t => rfl

/-- **Step.** A target leaves the globals alone, so only an assignment could end the equality. -/
theorem equates_addItem (h : st.2.Equates x d) (hitem : d.Spared x item.assigned?)
    (hadd : addItem st item = .ok st') : st'.2.Equates x d := by
  obtain ⟨_, _, _, hg⟩ | ⟨a, v, rfl, _, _, hg⟩ | ⟨_, _, _, _, _, hg⟩ := addItem_cases hadd
  · rw [hg]
    exact h
  · rw [hg]
    exact h.insert hitem v
  · rw [hg]
    exact h

/-- **Run.** The same for the items behind an assignment at the top level. -/
theorem foldlM_inlined {between after : List Item} {a : Assignment}
    (hself : ¬ a.value.Mentions a.name)
    (hbetween : ∀ m ∈ between, a.value.Spared a.name m.assigned?) (st : Registry × Scope) :
    (.assign a :: (between ++ item.subst a.name a.value :: after)).foldlM addItem st =
      (.assign a :: (between ++ item :: after)).foldlM addItem st := by
  rw [List.foldlM_cons, List.foldlM_cons]
  cases ha : addItem st (.assign a) with
  | error e => rfl
  | ok mid =>
    obtain ⟨_, he, -⟩ | ⟨_, v, he, hv, -, hg⟩ | ⟨_, _, he, -⟩ := addItem_cases ha
    · cases he
    · cases he
      have hmid : mid.2.Equates a.name a.value := by
        rw [hg]
        exact .of_insert hv hself
      refine foldlM_append_congr (fun st => st.2.Equates a.name a.value) ?_ ?_ hmid
      · intro m hm st st' hst hadd
        exact equates_addItem hst (hbetween m hm) hadd
      · intro st hst
        rw [List.foldlM_cons, List.foldlM_cons, addItem_subst hst]
    · cases he

/-- Scripts load alike if their items do. -/
theorem load_congr {help : Option String} {items items' : List Item}
    (h : ∀ st, items'.foldlM addItem st = items.foldlM addItem st) :
    load ⟨help, items'⟩ = load ⟨help, items⟩ := by
  simp only [load, h]

end Registry

/-! ## Scripts -/

/-- In the second script, one expression has what was assigned to a variable in place of the
variable. The assignment stands further up in the same scope. Its value does not mention the
variable itself, and nothing between the two assigns to the variable or to one that the value
mentions. -/
inductive Script.Inlined : Script → Script → Prop
  | top (help : Option String) (before between after : List Item) (a : Assignment) (item : Item) :
    ¬ a.value.Mentions a.name →
    (∀ m ∈ between, a.value.Spared a.name m.assigned?) →
    Inlined ⟨help, before ++ .assign a :: (between ++ item :: after)⟩
      ⟨help, before ++ .assign a :: (between ++ item.subst a.name a.value :: after)⟩
  | body (help : Option String) (above below : List Item) (name : String) (doc : Option String)
    (line : Nat) (before between after : List Statement) (a : Assignment) (s : Statement) :
    ¬ a.value.Mentions a.name →
    (∀ m ∈ between, a.value.Spared a.name m.assigned?) →
    Inlined
      ⟨help, above ++
        .target ⟨name, doc, before ++ .assign a :: (between ++ s :: after), line⟩ :: below⟩
      ⟨help, above ++ .target ⟨name, doc,
        before ++ .assign a :: (between ++ s.subst a.name a.value :: after), line⟩ :: below⟩

theorem TargetDecl.compile_inlined (name : String) (doc : Option String) (line : Nat)
    {before between after : List Statement} {a : Assignment} {s : Statement}
    (hself : ¬ a.value.Mentions a.name)
    (hbetween : ∀ m ∈ between, a.value.Spared a.name m.assigned?) (globals : Scope) :
    (TargetDecl.mk name doc
        (before ++ .assign a :: (between ++ s.subst a.name a.value :: after)) line).compile
        globals =
      (TargetDecl.mk name doc
        (before ++ .assign a :: (between ++ s :: after)) line).compile globals := by
  simp only [compile, compileBody_inlined hself hbetween, args, List.filterMap_append,
    List.filterMap_cons, Statement.arg?_subst]

/-- **A variable stands for what was assigned to it.** If `d` has a value, an expression with `d` in
place of a variable comes to the same, value or error, as with the variable bound to that value. And
a script loads to the same registry, or fails with the same error, if an expression has the value of
an assignment further up in its scope in place of the variable, as long as neither the variable nor
any that occurs in the value is assigned to in between. -/
theorem inlining_preserves :
    (∀ (e d : Expr) (x : String) (scope : Scope) (line line' : Nat) (v : Value),
      d.evalAt scope line' = .ok v →
        (e.subst x d).evalAt scope line = e.evalAt (scope.insert x v) line) ∧
    ∀ script script' : Script, script.Inlined script' →
      Registry.load script' = Registry.load script := by
  constructor
  · intro e d x scope line line' v hd
    rw [Expr.evalAt, Expr.evalAt, Expr.eval_subst (evalAt_eq_ok hd)]
  · intro script script' h
    cases h with
    | top help before between after a item hself hbetween =>
      apply Registry.load_congr
      intro st
      refine foldlM_append_congr (fun _ => True) (fun _ _ _ _ _ _ => trivial) ?_ trivial
      intro mid _
      exact Registry.foldlM_inlined hself hbetween mid
    | body help above below name doc line before between after a s hself hbetween =>
      apply Registry.load_congr
      intro st
      refine foldlM_append_congr (fun _ => True) (fun _ _ _ _ _ _ => trivial) ?_ trivial
      rintro ⟨r, globals⟩ _
      rw [List.foldlM_cons, List.foldlM_cons, Registry.addItem, Registry.addItem,
        TargetDecl.compile_inlined name doc line hself hbetween]

/-- A target that assigns `base * 3` to a variable, ends with a code, and has another value for
`base` only behind that. -/
def tripled (code : Expr) : Script :=
  ⟨none, [.assign ⟨"base", .number ⟨0x4000000000000000⟩, 1⟩,
    .target ⟨"t", none,
      [.assign ⟨"total", .binary .mul (.var "base") (.number ⟨0x4008000000000000⟩), 3⟩,
        .command "echo $total" 4, .assign ⟨"rest", .number ⟨0x3ff0000000000000⟩, 5⟩,
        .exit (some code) 6, .assign ⟨"base", .text "b", 7⟩], 2⟩]⟩

theorem inlining_preserves_tripled :
    (((Expr.negate (.var "x")).subst "x" (.var "y")).evalAt ⟨[("y", .text "a")]⟩ 4 =
      (Expr.negate (.var "x")).evalAt ⟨[("x", .text "a"), ("y", .text "a")]⟩ 4) ∧
    Registry.load (tripled (.binary .sub (.binary .mul (.var "base")
        (.number ⟨0x4008000000000000⟩)) (.var "rest"))) =
      Registry.load (tripled (.binary .sub (.var "total") (.var "rest"))) ∧
    Registry.load (tripled (.binary .sub (.var "total") (.var "rest"))) =
      .ok ⟨none, [⟨"t", none, [], ⟨[("base", .number ⟨0x4000000000000000⟩)]⟩,
        [.set "total" (.number ⟨0x4018000000000000⟩), .run "echo $total",
          .set "rest" (.number ⟨0x3ff0000000000000⟩), .exit (some 5),
          .set "base" (.text "b")]⟩]⟩ := by
  refine ⟨inlining_preserves.1 _ _ _ ⟨[("y", .text "a")]⟩ _ 0 _ rfl, ?_, by decide +kernel⟩
  refine inlining_preserves.2 _ _ (.body none [_] [] "t" none 2 [] [_, _] [_] ⟨"total", _, 3⟩
    (.exit (some (.binary .sub (.var "total") (.var "rest"))) 6) (by decide) ?_)
  rintro m hm name hname
  rcases List.mem_cons.1 hm with rfl | hm
  · cases hname
  · cases List.mem_singleton.1 hm
    cases hname
    decide

-- with another value for `base` in between, `total` is no longer `base`
example :
    (Registry.load ⟨none, [.assign ⟨"base", .text "a", 1⟩, .assign ⟨"total", .var "base", 2⟩,
      .assign ⟨"base", .text "b", 3⟩, .assign ⟨"x", .var "total", 4⟩,
      .target ⟨"t", none, [], 5⟩]⟩) ≠
    Registry.load ⟨none, [.assign ⟨"base", .text "a", 1⟩, .assign ⟨"total", .var "base", 2⟩,
      .assign ⟨"base", .text "b", 3⟩, .assign ⟨"x", .var "base", 4⟩,
      .target ⟨"t", none, [], 5⟩]⟩ := by
  decide +kernel

end TaskRunner
