import TaskRunner.Registry.Load

/-!
# Which expressions have a value

Whether an expression has a value, and of which kind, can be told from its nodes alone. A node is at
fault if it is a variable that is not in scope, or an operator for numbers with a text anywhere below
it, however deep. Evaluation gives a value exactly if no node is at fault, and otherwise the fault of
the first one, where every node comes behind the nodes below it (`Expr.eval_cases`). The induction
carries along the kind of the value: text gets up through `+` only, but through `+` it always does.
-/
namespace TaskRunner

def Value.isText : Value → Bool
  | .number _ => false
  | .text _ => true

namespace Expr

/-- The nodes of an expression from left to right, each behind the nodes below it. -/
def nodes : Expr → List Expr
  | .negate e => e.nodes ++ [.negate e]
  | .binary op l r => l.nodes ++ r.nodes ++ [.binary op l r]
  | leaf => [leaf]

/-- The nodes below the node at the top. -/
def descendants : Expr → List Expr
  | .negate e => e.nodes
  | .binary _ l r => l.nodes ++ r.nodes
  | _ => []

/-- A text, or a variable that is bound to one. -/
def isText (scope : Scope) : Expr → Bool
  | .text _ => true
  | .var name => (scope.get? name).any Value.isText
  | _ => false

/-- The symbol of a node that takes numbers only. -/
def numeric? : Expr → Option Char
  | .negate _ => some '-'
  | .binary .add _ _ => none
  | .binary op _ _ => some op.symbol
  | _ => none

/-- What is wrong with a node. -/
def fault? (scope : Scope) : Expr → Option EvalError
  | .var name => if (scope.get? name).isSome then none else some (.unknownVariable name)
  | node =>
    if node.descendants.any (isText scope) then node.numeric?.map EvalError.textOperand else none

theorem fault?_eq_none_iff (scope : Scope) (e : Expr) :
    e.fault? scope = none ↔
      (∀ name, e = .var name → ∃ v, scope.get? name = some v) ∧
        ∀ symbol, e.numeric? = some symbol → ∀ n ∈ e.descendants, n.isText scope = false := by
  cases e with
  | var name => simp [fault?, numeric?, Option.isSome_iff_exists]
  | number x => simp [fault?, numeric?]
  | text s => simp [fault?, numeric?]
  | negate e => simp [fault?, numeric?]
  | binary op l r =>
    cases hsymbol : (Expr.binary op l r).numeric? with
    | none => simp [fault?, hsymbol]
    | some symbol => simp [fault?, hsymbol]

/-! ## One operator -/

/-- A sign needs a number, and gives one. -/
theorem negate_cases (v : Value) :
    (v.isText = false ∧ ∃ w, v.negate = .ok w ∧ w.isText = false) ∨
      (v.isText = true ∧ v.negate = .error (.textOperand '-')) := by
  cases v with
  | number x => exact .inl ⟨rfl, _, rfl, rfl⟩
  | text s => exact .inr ⟨rfl, rfl⟩

/-- Two operands have a result if they are numbers or the operator is `+`, and it is a text as soon
as one of them is. -/
theorem apply_cases (op : BinOp) (l r : Expr) (v w : Value) :
    (((v.isText || w.isText) = false ∨ (Expr.binary op l r).numeric? = none) ∧
      ∃ u, op.apply v w = .ok u ∧ u.isText = (v.isText || w.isText)) ∨
    ((v.isText || w.isText) = true ∧ (Expr.binary op l r).numeric? = some op.symbol ∧
      op.apply v w = .error (.textOperand op.symbol)) := by
  cases op with
  | add =>
    refine .inl ⟨.inr rfl, ?_⟩
    cases v <;> cases w <;> exact ⟨_, rfl, rfl⟩
  | sub | mul | div | rem =>
    cases v with
    | number x =>
      cases w with
      | number y => exact .inl ⟨.inl rfl, _, rfl, rfl⟩
      | text t => exact .inr ⟨rfl, rfl, rfl⟩
    | text s => cases w <;> exact .inr ⟨rfl, rfl, rfl⟩

/-! ## All of them -/

/-- Evaluation gives a value if no node is at fault, which is a text exactly if some node is, and
else the first fault. -/
def EvalCases (scope : Scope) (e : Expr) : Prop :=
  (∃ v, e.eval scope = .ok v ∧ e.nodes.findSome? (fault? scope) = none ∧
    v.isText = e.nodes.any (isText scope)) ∨
  ∃ fault, e.eval scope = .error fault ∧ e.nodes.findSome? (fault? scope) = some fault

variable {scope : Scope}

theorem EvalCases.negate {e : Expr} (h : EvalCases scope e) : EvalCases scope (.negate e) := by
  rcases h with ⟨v, hv, hnone, htext⟩ | ⟨fault, hfault, hfirst⟩
  · have hlast : (Expr.negate e).fault? scope =
        if v.isText then some (.textOperand '-') else none := by
      simp [fault?, descendants, numeric?, htext]
    rcases negate_cases v with ⟨hnumber, w, hw, hkind⟩ | ⟨hkind, herror⟩
    · refine .inl ⟨w, by simp [eval, hv, hw], ?_, ?_⟩
      · simp [nodes, List.findSome?_append, hnone, hlast, hnumber]
      · simp [nodes, List.any_append, ← htext, hnumber, hkind, isText]
    · refine .inr ⟨.textOperand '-', by simp [eval, hv, herror], ?_⟩
      simp [nodes, List.findSome?_append, hnone, hlast, hkind]
  · refine .inr ⟨fault, by simp [eval, hfault], ?_⟩
    simp [nodes, List.findSome?_append, hfirst]

theorem EvalCases.binary (op : BinOp) {l r : Expr} (hl : EvalCases scope l)
    (hr : EvalCases scope r) : EvalCases scope (.binary op l r) := by
  rcases hl with ⟨v, hv, hnonel, htextl⟩ | ⟨fault, hfault, hfirst⟩
  · rcases hr with ⟨w, hw, hnoner, htextr⟩ | ⟨fault, hfault, hfirst⟩
    · have hlast : (Expr.binary op l r).fault? scope =
          if v.isText || w.isText then
            (Expr.binary op l r).numeric?.map EvalError.textOperand else none := by
        simp [fault?, descendants, List.any_append, htextl, htextr]
      rcases apply_cases op l r v w with ⟨hgood, u, hu, hkind⟩ | ⟨hkind, hsymbol, herror⟩
      · have hsound : (Expr.binary op l r).fault? scope = none := by
          rw [hlast]
          rcases hgood with hnumbers | hadd
          · simp [hnumbers]
          · simp [hadd]
        refine .inl ⟨u, by simp [eval, hv, hw, hu], ?_, ?_⟩
        · simp [nodes, List.findSome?_append, hnonel, hnoner, hsound]
        · simp [nodes, List.any_append, hkind, htextl, htextr, isText]
      · refine .inr ⟨.textOperand op.symbol, by simp [eval, hv, hw, herror], ?_⟩
        simp [nodes, List.findSome?_append, hnonel, hnoner, hlast, hkind, hsymbol]
    · refine .inr ⟨fault, by simp [eval, hv, hfault], ?_⟩
      simp [nodes, List.findSome?_append, hnonel, hfirst]
  -- the right operand is not looked at
  · refine .inr ⟨fault, by simp [eval, hfault], ?_⟩
    simp [nodes, List.findSome?_append, hfirst]

/-- **Evaluation ends with the first fault**, and with a value if there is none. -/
theorem eval_cases (scope : Scope) (e : Expr) : EvalCases scope e := by
  induction e with
  | number x => exact .inl ⟨_, rfl, rfl, rfl⟩
  | text s => exact .inl ⟨_, rfl, rfl, rfl⟩
  | var name =>
    cases hv : scope.get? name with
    | some v =>
      refine .inl ⟨v, by simp [eval, hv], ?_, ?_⟩
      · simp [nodes, fault?, hv]
      · simp [nodes, isText, hv]
    | none =>
      refine .inr ⟨.unknownVariable name, by simp [eval, hv], ?_⟩
      simp [nodes, fault?, hv]
  | negate e ih => exact ih.negate
  | binary op l r ihl ihr => exact ihl.binary op ihr

theorem findSome?_fault?_eq_none_iff (scope : Scope) (e : Expr) :
    e.nodes.findSome? (fault? scope) = none ↔
      (∀ name, .var name ∈ e.nodes → ∃ v, scope.get? name = some v) ∧
        ∀ n ∈ e.nodes, ∀ symbol, n.numeric? = some symbol →
          ∀ m ∈ n.descendants, m.isText scope = false := by
  simp only [List.findSome?_eq_none_iff, fault?_eq_none_iff]
  constructor
  · intro h
    exact ⟨fun name hname => (h _ hname).1 name rfl, fun n hn => (h n hn).2⟩
  · rintro ⟨hvar, hnumeric⟩ n hn
    refine ⟨?_, hnumeric n hn⟩
    rintro name rfl
    exact hvar name hn

/-- **Which expressions have a value, of which kind, and which error the others give.** An
expression has a value exactly if all its variables are in scope and there is no text, as a literal
or in a variable, anywhere below an operator for numbers. The value is a text exactly if there is a
text somewhere. The error is the fault of the first node that has one, from left to right and from
the inside out, with the line of the expression. -/
theorem evalAt_firstFault (scope : Scope) (line : Nat) (e : Expr) :
    ((∃ v, e.evalAt scope line = .ok v) ↔
      (∀ name, .var name ∈ e.nodes → ∃ v, scope.get? name = some v) ∧
        ∀ n ∈ e.nodes, ∀ symbol, n.numeric? = some symbol →
          ∀ m ∈ n.descendants, m.isText scope = false) ∧
    ((∃ s, e.evalAt scope line = .ok (.text s)) ↔
      (∃ v, e.evalAt scope line = .ok v) ∧ ∃ n ∈ e.nodes, n.isText scope = true) ∧
    ∀ error, e.evalAt scope line = .error error ↔
      ∃ before n behind fault, e.nodes = before ++ n :: behind ∧
        (∀ m ∈ before, m.fault? scope = none) ∧ n.fault? scope = some fault ∧
        error = .evaluation line fault := by
  rw [← findSome?_fault?_eq_none_iff]
  rcases eval_cases scope e with ⟨v, hv, hnone, htext⟩ | ⟨fault, hfault, hfirst⟩
  · have hat : e.evalAt scope line = .ok v := by simp [evalAt, hv]
    refine ⟨by simp [hat, hnone], ?_, fun error => ?_⟩
    · rw [← List.any_eq_true, ← htext]
      cases v <;> simp [hat, Value.isText]
    · constructor
      · intro h
        cases hat.symm.trans h
      · rintro ⟨before, n, behind, fault, hnodes, -, hn, -⟩
        have := List.findSome?_eq_none_iff.1 hnone n (by simp [hnodes])
        cases this.symm.trans hn
  · have hat : e.evalAt scope line = .error (.evaluation line fault) := by simp [evalAt, hfault]
    refine ⟨by simp [hat, hfirst], by simp [hat], fun error => ?_⟩
    constructor
    · intro h
      cases hat.symm.trans h
      obtain ⟨before, n, behind, hnodes, hn, hbefore⟩ := List.findSome?_eq_some_iff.1 hfirst
      exact ⟨before, n, behind, fault, hnodes, hbefore, hn, rfl⟩
    · rintro ⟨before, n, behind, other, hnodes, hbefore, hn, rfl⟩
      have hother : e.nodes.findSome? (fault? scope) = some other :=
        List.findSome?_eq_some_iff.2 ⟨before, n, behind, hnodes, hn, hbefore⟩
      cases hfirst.symm.trans hother
      exact hat

-- `-(0 * (n + 0) + m)` with a text in `n` and nothing in `m`: the product comes before both others
example : (Expr.negate (.binary .add (.binary .mul (.number ⟨0⟩)
    (.binary .add (.var "n") (.number ⟨0⟩))) (.var "m"))).evalAt ⟨[("n", .text "a")]⟩ 7 =
    .error (.evaluation 7 (.textOperand '*')) := rfl

end Expr

end TaskRunner
