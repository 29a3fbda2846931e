import Mathlib.Data.List.Nodup
import TaskRunner.Proofs.ByteOrder
import TaskRunner.Proofs.Causality

/-!
# The states of a registry

A registry comes about by adding targets and by loading scripts, in any order, where an operation
that fails leaves everything as it was. Whatever the targets and the scripts are, no two targets of
a registry have one name (`nodup_of_reachable`). Looking a name up and listing the targets by name
rest on this: there is never more than one target to find, and no two names are equal in the list
(`reachable_spec`).
-/
namespace TaskRunner.Registry

/-- The names of the targets, in the order of the registry. -/
def names (r : Registry) : List String := r.targets.map Target.name

/-- What can be done to a registry. -/
inductive Operation where
  /-- Adds a target. -/
  | register (t : Target)
  /-- Puts the registry of a script in place of the one that is there. -/
  | load (script : Script)

/-- What an operation answers, and the registry after it. -/
def perform (r : Registry) : Operation → Except LoadError Unit × Registry
  | .register t => r.add t
  | .load script =>
    match load script with
    | .ok r' => (.ok (), r')
    | .error e => (.error e, r)

/-- The registries that operations lead to, from one without targets. -/
inductive Reachable : Registry → Prop
  | empty (help : Option String) : Reachable (.empty help)
  | perform {r : Registry} (op : Operation) : Reachable r → Reachable (r.perform op).2

/-! ## One operation -/

theorem get?_eq_none_iff {r : Registry} {name : String} : r.get? name = none ↔ name ∉ r.names := by
  simp [get?, names, List.find?_eq_none]

theorem add_of_taken {r : Registry} {t : Target} (h : t.name ∈ r.names) :
    r.add t = (.error (.duplicateTarget t.name), r) := by
  cases hget : r.get? t.name with
  | none => exact absurd h (get?_eq_none_iff.1 hget)
  | some t' => rw [add, hget, Option.isSome_some, if_pos rfl]

theorem add_of_free {r : Registry} {t : Target} (h : t.name ∉ r.names) :
    r.add t = (.ok (), { r with targets := r.targets ++ [t] }) := by
  rw [add, get?_eq_none_iff.2 h, Option.isSome_none, if_neg Bool.false_ne_true]

theorem nodup_register {r r' : Registry} {t : Target} (hr : r.names.Nodup)
    (h : r.register t = .ok r') : r'.names.Nodup := by
  obtain ⟨hnone, rfl⟩ := register_eq_ok h
  have hfree : t.name ∉ r.names := get?_eq_none_iff.1 hnone
  rw [names, List.map_append, List.map_singleton]
  refine List.nodup_append.2 ⟨hr, by simp, ?_⟩
  rintro name hname _ hlast rfl
  cases List.mem_singleton.1 hlast
  exact hfree hname

/-- **Step.** An item of a script keeps the names apart. -/
theorem nodup_addItem {st st' : Registry × Scope} {item : Item} (hst : st.1.names.Nodup)
    (h : addItem st item = .ok st') : st'.1.names.Nodup := by
  obtain ⟨_, _, hr, -⟩ | ⟨_, _, _, _, hr, -⟩ | ⟨_, target, _, _, hr, -⟩ := addItem_cases h
  · rwa [hr]
  · rwa [hr]
  · exact nodup_register hst hr

/-- **Run.** So do all of them, also if the script itself defines a name twice. -/
theorem nodup_load {script : Script} {r : Registry} (h : load script = .ok r) : r.names.Nodup := by
  obtain ⟨g, hfold⟩ := load_eq_ok_iff.1 h
  have hempty : (empty script.help).names.Nodup := List.nodup_nil
  exact foldlM_invariant (fun st : Registry × Scope => st.1.names.Nodup)
    (fun _ _ _ _ => nodup_addItem) hempty hfold

/-- **Step.** An operation keeps the names apart, whether it fails or not. -/
theorem nodup_perform {r : Registry} (hr : r.names.Nodup) (op : Operation) :
    (r.perform op).2.names.Nodup := by
  cases op with
  | register t =>
    rw [perform]
    by_cases ht : t.name ∈ r.names
    · rw [add_of_taken ht]
      exact hr
    · refine nodup_register (t := t) hr ?_
      rw [register, add_of_free ht]
  | load script =>
    rw [perform]
    cases hload : load script with
    | error e => exact hr
    | ok r' => exact nodup_load hload

/-- **Run.** No two targets of a registry have one name. -/
theorem nodup_of_reachable {r : Registry} (h : r.Reachable) : r.names.Nodup := by
  induction h with
  | empty help => exact List.nodup_nil
  | perform op _ ih => exact nodup_perform ih op

/-! ## What follows from names that are apart -/

theorem get?_eq_some_iff {r : Registry} (hr : r.names.Nodup) {name : String} {t : Target} :
    r.get? name = some t ↔ t ∈ r.targets ∧ t.name = name := by
  constructor
  · intro h
    exact ⟨List.mem_of_find?_eq_some h, by simpa using List.find?_some h⟩
  · rintro ⟨ht, rfl⟩
    cases hget : r.get? t.name with
    | none => exact absurd (List.mem_map_of_mem ht) (get?_eq_none_iff.1 hget)
    | some t' =>
      have hname : t'.name = t.name := by simpa using List.find?_some hget
      have hmem : t' ∈ r.targets := List.mem_of_find?_eq_some hget
      rw [List.inj_on_of_nodup_map hr hmem ht hname]

theorem sorted_perm (r : Registry) : r.sorted.Perm r.targets := List.mergeSort_perm _ _

theorem sorted_le (r : Registry) : r.sorted.Pairwise fun a b => a.name ≤ b.name := by
  refine (List.pairwise_mergeSort ?_ ?_ r.targets).imp of_decide_eq_true
  · intro a b c hab hbc
    exact decide_eq_true (String.le_trans (of_decide_eq_true hab) (of_decide_eq_true hbc))
  · intro a b
    simpa using String.le_total a.name b.name

/-- The list by name has no two equal names, so that it goes up at every step. -/
theorem sorted_lt {r : Registry} (hr : r.names.Nodup) :
    r.sorted.Pairwise fun a b => a.name < b.name := by
  have hne : (r.sorted.map Target.name).Nodup := (r.sorted_perm.map Target.name).nodup_iff.2 hr
  refine r.sorted_le.imp₂ (fun a b hab hne => ?_) (List.pairwise_map.1 hne)
  exact String.not_le.1 fun hba => hne (String.le_antisymm hab hba)

/-- **What holds of a registry after any operations.** No two targets have one name. Adding a target
fails exactly if its name is taken, and leaves the registry as it was; otherwise the target comes
last. Looking up a name finds the one target that has it, or nothing. The list by name has every
target once and goes up at every step, in the order of the names' UTF-8 bytes. -/
theorem reachable_spec {r : Registry} (h : r.Reachable) :
    r.names.Nodup ∧
    (∀ t, t.name ∈ r.names → r.add t = (.error (.duplicateTarget t.name), r)) ∧
    (∀ t, t.name ∉ r.names → r.add t = (.ok (), { r with targets := r.targets ++ [t] })) ∧
    (∀ name t, r.get? name = some t ↔ t ∈ r.targets ∧ t.name = name) ∧
    r.sorted.Perm r.targets ∧
    r.sorted.Pairwise fun a b => Text.utf8 a.name < Text.utf8 b.name := by
  have hr := nodup_of_reachable h
  exact ⟨hr, fun t => add_of_taken, fun t => add_of_free, fun name t => get?_eq_some_iff hr,
    r.sorted_perm, (sorted_lt hr).imp Text.utf8_lt⟩

/-- A target with nothing but a name. -/
def bare (name : String) : Target := ⟨name, none, [], .empty, []⟩

/-- A script that defines a name twice. -/
def defineTwice : Script := ⟨none, [.target ⟨"t", none, [], 1⟩, .target ⟨"t", none, [], 2⟩]⟩

theorem reachable_spec_sample :
    ∃ r : Registry, r.Reachable ∧ r.targets = [bare "z", bare "\uffff", bare "😀"] ∧
      load defineTwice = .error (.duplicateTarget "t") ∧
      r.add (bare "z") = (.error (.duplicateTarget "z"), r) ∧ r.get? "😀" = some (bare "😀") ∧
      r.sorted.Pairwise fun a b => Text.utf8 a.name < Text.utf8 b.name := by
  have h : Reachable ((((((empty none).perform (.register (bare "z"))).2.perform
      (.load defineTwice)).2.perform (.register (bare "\uffff"))).2.perform
      (.register (bare "😀"))).2) :=
    .perform _ (.perform _ (.perform _ (.perform _ (.empty none))))
  obtain ⟨-, htaken, -, hget, -, hsorted⟩ := reachable_spec h
  exact ⟨_, h, by decide +kernel, by decide +kernel, htaken (bare "z") (by decide +kernel),
    (hget _ _).2 (by decide +kernel), hsorted⟩

end TaskRunner.Registry
