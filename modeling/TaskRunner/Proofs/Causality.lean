import TaskRunner.Proofs.Interpretation

/-!
# Later items have no say in earlier targets

A target is loaded from the items up to its own definition. What is appended to a script may add
targets behind those that are there, but it changes none of them, and it neither brings about nor
mends an error of the items before it (`load_append`).
-/
namespace TaskRunner.Registry

/-! ## One item -/

/-- **Step.** An item leaves the targets before it alone. -/
theorem targets_addItem {st st' : Registry × Scope} {item : Item} (h : addItem st item = .ok st') :
    st.1.targets <+: st'.1.targets := by
  obtain ⟨_, _, hr, -⟩ | ⟨_, _, _, _, hr, -⟩ | ⟨_, target, _, _, hr, -⟩ := addItem_cases h
  · simp only [hr, List.prefix_refl]
  · simp only [hr, List.prefix_refl]
  · rw [(register_eq_ok hr).2]
    exact List.prefix_append _ _

/-- A definition puts its name into the registry. -/
theorem get?_addItem_target {st st' : Registry × Scope} {t : TargetDecl}
    (h : addItem st (.target t) = .ok st') : ∃ target, st'.1.get? t.name = some target := by
  obtain ⟨_, he, -⟩ | ⟨_, _, he, -⟩ | ⟨t', target, he, hcompile, hr, -⟩ := addItem_cases h
  · cases he
  · cases he
  · cases he
    refine ⟨target, ?_⟩
    rw [get?_register hr, if_pos (TargetDecl.compile_eq_ok hcompile).1]

/-! ## All items -/

/-- **Run.** Items only add targets behind those that are there. -/
theorem targets_foldlM {items : List Item} {st st' : Registry × Scope}
    (h : items.foldlM addItem st = .ok st') : st.1.targets <+: st'.1.targets := by
  refine foldlM_invariant (fun mid : Registry × Scope => st.1.targets <+: mid.1.targets) ?_
    (List.prefix_refl _) h
  intro item _ mid mid' hmid hstep
  exact hmid.trans (targets_addItem hstep)

/-- What is defined among the items is in the registry. -/
theorem get?_of_mem {items : List Item} {st st' : Registry × Scope} {t : TargetDecl}
    (h : items.foldlM addItem st = .ok st') (ht : .target t ∈ items) :
    ∃ target, st'.1.get? t.name = some target := by
  obtain ⟨before, behind, rfl⟩ := List.append_of_mem ht
  obtain ⟨mid, -, hrest⟩ := foldlM_append_eq_ok.1 h
  obtain ⟨mid', hstep, hbehind⟩ := foldlM_cons_eq_ok.1 hrest
  obtain ⟨target, htarget⟩ := get?_addItem_target hstep
  exact ⟨target, get?_foldlM hbehind htarget⟩

theorem load_eq_ok_iff {script : Script} {r : Registry} :
    load script = .ok r ↔
      ∃ g, script.items.foldlM addItem (empty script.help, .empty) = .ok (r, g) := by
  unfold load
  cases script.items.foldlM addItem (empty script.help, .empty) with
  | error e => simp
  | ok st => simp [Prod.ext_iff]

theorem load_eq_error_iff {script : Script} {e : LoadError} :
    load script = .error e ↔
      script.items.foldlM addItem (empty script.help, .empty) = .error e := by
  unfold load
  cases script.items.foldlM addItem (empty script.help, .empty) <;> simp

/-- A name is looked up among the first targets first. -/
theorem get?_of_front {r r' : Registry} (h : r.targets <+: r'.targets) {name : String}
    {target : Target} (ht : r.get? name = some target) : r'.get? name = some target := by
  obtain ⟨more, hmore⟩ := h
  unfold get? at ht ⊢
  rw [← hmore, List.find?_append, ht, Option.some_or]

/-- **Loading is causal.** If a script loads, so does every front part of it, and its targets come
first in the same form, so that a target of the front part runs as it would there. An error of a
front part is the error of the script. -/
theorem load_append (help : Option String) (p q : List Item) :
    (∀ r, load ⟨help, p ++ q⟩ = .ok r →
      ∃ r₀, load ⟨help, p⟩ = .ok r₀ ∧ r₀.targets <+: r.targets ∧
        ∀ t, .target t ∈ p → (∃ target, r₀.get? t.name = some target) ∧
          ∀ (σ : Type) (runner : Runner σ) (args : List String) (state : σ),
            r.dispatch runner t.name args state = r₀.dispatch runner t.name args state) ∧
    ∀ e, load ⟨help, p⟩ = .error e → load ⟨help, p ++ q⟩ = .error e := by
  refine ⟨fun r h => ?_, fun e h => ?_⟩
  · obtain ⟨g, hfold⟩ := load_eq_ok_iff.1 h
    obtain ⟨⟨r₀, g₀⟩, hp, hq⟩ := foldlM_append_eq_ok.1 hfold
    have hfront : r₀.targets <+: r.targets := targets_foldlM hq
    refine ⟨r₀, load_eq_ok_iff.2 ⟨g₀, hp⟩, hfront, fun t ht => ?_⟩
    obtain ⟨target, htarget⟩ := get?_of_mem hp ht
    refine ⟨⟨target, htarget⟩, fun σ runner args state => ?_⟩
    unfold dispatch
    rw [htarget, get?_of_front hfront htarget]
  · rw [load_eq_error_iff] at h ⊢
    exact foldlM_append_eq_error q h

/-- A target that uses a variable. -/
def firstUse : List Item :=
  [.assign ⟨"x", .text "a", 1⟩, .target ⟨"t", none, [.command "echo $x" 2], 2⟩]

/-- Another value for the variable, and a target that uses that. -/
def secondUse : List Item :=
  [.assign ⟨"x", .text "b", 3⟩, .target ⟨"u", none, [.command "echo $x" 4], 4⟩]

/-- An assignment that has no value. -/
def valueless : List Item := [.assign ⟨"y", .var "z", 1⟩]

theorem load_append_sample :
    (∃ r r₀, load ⟨none, firstUse ++ secondUse⟩ = .ok r ∧ load ⟨none, firstUse⟩ = .ok r₀ ∧
      r₀.targets <+: r.targets ∧
      r.dispatch Runner.scripted "t" [] [] = r₀.dispatch Runner.scripted "t" [] []) ∧
    load ⟨none, valueless⟩ = .error (.evaluation 1 (.unknownVariable "z")) ∧
    load ⟨none, valueless ++ secondUse⟩ = .error (.evaluation 1 (.unknownVariable "z")) := by
  have hload : load ⟨none, firstUse ++ secondUse⟩ =
      .ok ⟨none, [⟨"t", none, [], ⟨[("x", .text "a")]⟩, [.run "echo $x"]⟩,
        ⟨"u", none, [], ⟨[("x", .text "b")]⟩, [.run "echo $x"]⟩]⟩ := rfl
  obtain ⟨r₀, h₀, hfront, hsame⟩ := (load_append none firstUse secondUse).1 _ hload
  have ht := hsame ⟨"t", none, [.command "echo $x" 2], 2⟩ (by simp [firstUse])
  exact ⟨⟨_, r₀, hload, h₀, hfront, ht.2 _ _ _ _⟩, rfl,
    (load_append none valueless secondUse).2 _ rfl⟩

end TaskRunner.Registry
