import Mathlib.Data.List.Nodup
import TaskRunner.Proofs.PhraseTrees

/-!
# Which phrases are out of place

The phrases of a script are put in their places one after the other, and the first one that does not
fit ends it. `Violation` says what a misfit is without that order: it looks at the phrases of a
scope all at once. The phrases of a text become a script exactly if they have no violation
(`ofPhrases_isOk_iff`).

The top level of a script and the inside of a target are two loops with rules of their own, but both
keep names that may not come twice and a help text that may come once. `Checks` is what the two have
in common, and `Checks.run` is the induction over a loop.
-/
namespace TaskRunner

open Grammar

/-! ## Violations -/

namespace Grammar.Phrase

/-- The name of the target that a phrase defines. -/
def targetName? : Phrase → Option String
  | .oneLine name _ => some name
  | .block name _ => some name
  | _ => none

/-- The name of the argument that a phrase declares. -/
def argName? : Phrase → Option String
  | .arg a => some a.name
  | _ => none

def helpText? : Phrase → Option String
  | .help text => some text
  | _ => none

end Grammar.Phrase

/-- The names of the targets that some phrases define, in order. -/
def targetNames (ps : List Placed) : List String := ps.filterMap (·.2.targetName?)

/-- The names of the arguments that some phrases declare, in order. -/
def argNames (ps : List Placed) : List String := ps.filterMap (·.2.argName?)

/-- The help blocks among some phrases, in order. -/
def helpTexts (ps : List Placed) : List String := ps.filterMap (·.2.helpText?)

/-- Something in the phrases of a script that does not stand where it may. -/
inductive Violation (ps : List Placed) : Prop
  | command {s : List Char} {text : String} : (s, .command text) ∈ ps → Violation ps
  | python {s : List Char} {text : String} : (s, .python text) ∈ ps → Violation ps
  | argument {s : List Char} {a : ArgDecl} : (s, .arg a) ∈ ps → Violation ps
  | exit {s : List Char} {code : Option Expr} : (s, .exit code) ∈ ps → Violation ps
  | yield {s : List Char} : (s, .yield) ∈ ps → Violation ps
  | targetInside {s : List Char} {name : String} {body : List Placed} :
    (s, .block name body) ∈ ps → targetNames body ≠ [] → Violation ps
  | sameTarget : ¬ (targetNames ps).Nodup → Violation ps
  | sameArgument {s : List Char} {name : String} {body : List Placed} :
    (s, .block name body) ∈ ps → ¬ (argNames body).Nodup → Violation ps
  | secondHelp : 1 < (helpTexts ps).length → Violation ps
  | secondHelpInside {s : List Char} {name : String} {body : List Placed} :
    (s, .block name body) ∈ ps → 1 < (helpTexts body).length → Violation ps

/-! ## A loop over the phrases of a scope -/

/-- A loop takes a phrase if it `fits`, gives no name that is taken, and is no second help text. It
keeps the names and the help text for the phrases behind it. -/
structure Checks {σ ε : Type} (step : σ → Placed → Except ε σ) (fits : Placed → Prop)
    (name? : Phrase → Option String) (names : σ → List String) (help : σ → Option String) :
    Prop where
  isOk_iff : ∀ s p, (∃ s', step s p = .ok s') ↔
    fits p ∧ (∀ n ∈ name? p.2, n ∉ names s) ∧ (p.2.helpText? = none ∨ help s = none)
  names_eq : ∀ s p s', step s p = .ok s' → names s' = names s ++ (name? p.2).toList
  help_eq : ∀ s p s', step s p = .ok s' → help s' = p.2.helpText?.or (help s)

section

variable {σ ε : Type} {step : σ → Placed → Except ε σ} {fits : Placed → Prop}
  {name? : Phrase → Option String} {names : σ → List String} {help : σ → Option String}

theorem length_toList_or {a b : Option String} (h : a = none ∨ b = none) :
    (a.or b).toList.length = b.toList.length + a.toList.length := by
  rcases h with rfl | rfl
  · simp
  · cases a <;> simp

/-- **Step.** Names that are all different stay so. -/
theorem Checks.nodup_names (h : Checks step fits name? names help) {s s' : σ} {p : Placed}
    (hs : (names s).Nodup) (hstep : step s p = .ok s') : (names s').Nodup := by
  rw [h.names_eq s p s' hstep]
  cases hn : name? p.2 with
  | none => simpa using hs
  | some n =>
    have hfree : n ∉ names s := ((h.isOk_iff s p).1 ⟨s', hstep⟩).2.1 n hn
    simpa [List.nodup_append, hs] using fun m hm => by rintro rfl; exact hfree hm

/-- **Run.** A loop gets through if all phrases fit, no name comes twice and no more than one help
text comes at all, those from before the loop included. -/
theorem Checks.run (h : Checks step fits name? names help) : ∀ (ps : List Placed) (s : σ),
    (names s).Nodup →
    ((∃ s', ps.foldlM step s = .ok s') ↔
      (∀ p ∈ ps, fits p) ∧ (names s ++ ps.filterMap (name? ·.2)).Nodup ∧
        (help s).toList.length + (helpTexts ps).length ≤ 1)
  | [], s, hs => by
    have hone : (help s).toList.length ≤ 1 := by cases help s <;> simp
    simp only [List.not_mem_nil, false_imp_iff, implies_true, List.filterMap_nil, List.append_nil,
      helpTexts, List.length_nil, Nat.add_zero, true_and]
    exact ⟨fun _ => ⟨hs, hone⟩, fun _ => ⟨s, rfl⟩⟩
  | p :: ps, s, hs => by
    have hnames : names s ++ (p :: ps).filterMap (name? ·.2) =
        names s ++ (name? p.2).toList ++ ps.filterMap (name? ·.2) := by
      cases hn : name? p.2 <;> simp [hn]
    have hhelps : (helpTexts (p :: ps)).length =
        p.2.helpText?.toList.length + (helpTexts ps).length := by
      cases ht : p.2.helpText? <;> simp [helpTexts, ht]; omega
    simp only [foldlM_cons_eq_ok, hnames, hhelps, List.forall_mem_cons]
    constructor
    · rintro ⟨s', t, ht, hrest⟩
      obtain ⟨hfits, -, hhelp⟩ := (h.isOk_iff s p).1 ⟨t, ht⟩
      obtain ⟨hall, hother, hcount⟩ := (h.run ps t (h.nodup_names hs ht)).1 ⟨s', hrest⟩
      rw [h.names_eq s p t ht] at hother
      rw [h.help_eq s p t ht, length_toList_or hhelp] at hcount
      exact ⟨⟨hfits, hall⟩, hother, by omega⟩
    · rintro ⟨⟨hfits, hall⟩, hnodup, hcount⟩
      have hfirst := (List.nodup_append.1 hnodup).1
      have hnew : ∀ n ∈ name? p.2, n ∉ names s := by
        intro n hn hmem
        exact (List.nodup_append.1 hfirst).2.2 n hmem n (by simpa using hn) rfl
      have hhelp : p.2.helpText? = none ∨ help s = none := by
        cases htext : p.2.helpText? with
        | none => exact .inl rfl
        | some text =>
          cases hslot : help s with
          | none => exact .inr rfl
          | some text' =>
            simp only [htext, hslot, Option.toList_some, List.length_singleton] at hcount
            omega
      obtain ⟨t, ht⟩ := (h.isOk_iff s p).2 ⟨hfits, hnew, hhelp⟩
      have hnamed := h.names_eq s p t ht
      have hcount' : (help t).toList.length + (helpTexts ps).length ≤ 1 := by
        rw [h.help_eq s p t ht, length_toList_or hhelp]
        omega
      obtain ⟨s', hs'⟩ := (h.run ps t (by rwa [hnamed])).2 ⟨hall, by rwa [hnamed], hcount'⟩
      exact ⟨s', t, ht, hs'⟩

end

/-! ## What one phrase does to a scope -/

/-- The statement that a phrase on the given line is inside of a target. -/
def Grammar.Phrase.statement? (line : Nat) : Phrase → Option Statement
  | .comment text => some (.comment text)
  | .assign name value => some (.assign ⟨name, value, line⟩)
  | .command text => some (.command text line)
  | .python text => some (.python text line)
  | .arg a => some (.arg a)
  | .exit code => some (.exit code line)
  | .yield => some .yield
  | .help _ => none
  | .oneLine _ _ => none
  | .block _ _ => none

namespace TargetDecl

/-- The names of the arguments that are declared so far. -/
def argsTaken (t : TargetDecl) : List String := t.args.map ArgDecl.name

/-- **Step.** A phrase fills the place of the help text or is the next statement. -/
theorem accept_eq_ok_iff {t t' : TargetDecl} {line : Nat} {phrase : Phrase} :
    t.accept line phrase = .ok t' ↔
      (∃ text, phrase = .help text ∧ t.help = none ∧ t' = { t with help := some text }) ∨
      ∃ s, phrase.statement? line = some s ∧ (∀ n ∈ phrase.argName?, n ∉ t.argsTaken) ∧
        t' = t.push s := by
  cases phrase with
  | help text =>
    cases hslot : t.help <;> simp [accept, hslot, Phrase.statement?, eq_comm]
  | arg a =>
    have hany : t.args.any (·.name == a.name) = true ↔ a.name ∈ t.argsTaken := any_name_iff
    by_cases hmem : a.name ∈ t.argsTaken
    · simp [accept, hany.2 hmem, Phrase.statement?, Phrase.argName?, hmem]
    · have hfree : t.args.any (·.name == a.name) = false := by
        rw [← Bool.not_eq_true, hany]
        exact hmem
      simp [accept, hfree, Phrase.statement?, Phrase.argName?, hmem, eq_comm]
  | _ => simp [accept, Phrase.statement?, Phrase.argName?, eq_comm]

theorem argsTaken_push (t : TargetDecl) (s : Statement) :
    (t.push s).argsTaken = t.argsTaken ++ s.arg?.toList.map ArgDecl.name := by
  rw [argsTaken, args_push, List.map_append, argsTaken]

theorem argName?_of_statement? {line : Nat} {phrase : Phrase} {s : Statement}
    (h : phrase.statement? line = some s) :
    s.arg?.toList.map ArgDecl.name = phrase.argName?.toList := by
  cases phrase <;> cases h <;> rfl

theorem checks (source : List Char) :
    Checks (fun (t : TargetDecl) p => t.accept (lineOf source p.1) p.2)
      (fun p => p.2.targetName? = none) Phrase.argName? argsTaken TargetDecl.help where
  isOk_iff t p := by
    simp only [accept_eq_ok_iff]
    obtain ⟨s, phrase⟩ := p
    cases phrase <;> simp [Phrase.statement?, Phrase.targetName?, Phrase.argName?, Phrase.helpText?]
  names_eq t p t' h := by
    rcases accept_eq_ok_iff.1 h with ⟨text, hp, -, rfl⟩ | ⟨s, hs, -, rfl⟩
    · simp [hp, Phrase.argName?, argsTaken, args]
    · rw [argsTaken_push, argName?_of_statement? hs]
  help_eq t p t' h := by
    rcases accept_eq_ok_iff.1 h with ⟨text, hp, -, rfl⟩ | ⟨s, hs, -, rfl⟩
    · simp [hp, Phrase.helpText?]
    · cases hp : p.2 <;> simp_all [Phrase.statement?, Phrase.helpText?, push]

/-- Every statement of a target is what some phrase of its body is there. -/
theorem statement_of_mem {source : List Char} {name : String} {line : Nat} {body : List Placed}
    {t : TargetDecl} (h : ofPhrases source name line body = .ok t) :
    ∀ s ∈ t.body, ∃ p ∈ body, p.2.statement? (lineOf source p.1) = some s := by
  refine foldlM_invariant (fun t : TargetDecl => ∀ s ∈ t.body, ∃ p ∈ body,
    p.2.statement? (lineOf source p.1) = some s) ?_ (by simp) h
  intro p hp t t' ht hstep s hs
  rcases accept_eq_ok_iff.1 hstep with ⟨text, -, -, rfl⟩ | ⟨new, hnew, -, rfl⟩
  · exact ht s hs
  · rcases List.mem_append.1 hs with hs | hs
    · exact ht s hs
    · cases List.mem_singleton.1 hs
      exact ⟨p, hp, hnew⟩

/-- A target keeps the name and the line that it starts with. -/
theorem ofPhrases_eq_ok {source : List Char} {name : String} {line : Nat} {body : List Placed}
    {t : TargetDecl} (h : ofPhrases source name line body = .ok t) :
    t.name = name ∧ t.line = line := by
  refine foldlM_invariant (fun t : TargetDecl => t.name = name ∧ t.line = line) ?_ ⟨rfl, rfl⟩ h
  intro p _ t t' ht hstep
  rcases accept_eq_ok_iff.1 hstep with ⟨text, -, -, rfl⟩ | ⟨s, -, -, rfl⟩
  · exact ht
  · exact ht

theorem ofPhrases_isOk_iff (source : List Char) (name : String) (line : Nat) {body : List Placed} :
    (∃ t, ofPhrases source name line body = .ok t) ↔
      targetNames body = [] ∧ (argNames body).Nodup ∧ (helpTexts body).length ≤ 1 := by
  have hrun := (checks source).run body ⟨name, none, [], line⟩ List.nodup_nil
  have hfits : (∀ p ∈ body, p.2.targetName? = none) ↔ targetNames body = [] := by
    simp [targetNames]
  rw [hfits] at hrun
  simpa [ofPhrases, argsTaken, args, argNames] using hrun

end TargetDecl

/-- The item that a phrase on the given line of a source is at the top level. -/
inductive Stands (source : List Char) (line : Nat) : Phrase → Item → Prop
  | comment (text : String) : Stands source line (.comment text) (.comment text)
  | assign (name : String) (value : Expr) :
    Stands source line (.assign name value) (.assign ⟨name, value, line⟩)
  | oneLine (name command : String) :
    Stands source line (.oneLine name command) (.target (.ofCommand name line command))
  | block {name : String} {body : List Placed} {t : TargetDecl} :
    TargetDecl.ofPhrases source name line body = .ok t →
    Stands source line (.block name body) (.target t)

theorem Stands.target_name {source : List Char} {line : Nat} {phrase : Phrase} {item : Item}
    (h : Stands source line phrase item) :
    item.target?.map TargetDecl.name = phrase.targetName? := by
  cases h with
  | comment | assign | oneLine => rfl
  | block ht => exact congrArg some (TargetDecl.ofPhrases_eq_ok ht).1

theorem Stands.helpText?_eq {source : List Char} {line : Nat} {phrase : Phrase} {item : Item}
    (h : Stands source line phrase item) : phrase.helpText? = none := by
  cases h <;> rfl

namespace Script

/-- The names of the targets that are defined so far. -/
def namesTaken (s : Script) : List String := s.targets.map TargetDecl.name

theorem addTarget_eq_ok_iff {s s' : Script} {t : TargetDecl} :
    s.addTarget t = .ok s' ↔ t.name ∉ s.namesTaken ∧ s' = s.push (.target t) := by
  have hany : s.targets.any (·.name == t.name) = true ↔ t.name ∈ s.namesTaken := any_name_iff
  unfold addTarget
  by_cases hmem : t.name ∈ s.namesTaken
  · simp [hany.2 hmem, hmem]
  · rw [if_neg (mt hany.1 hmem)]
    simp [hmem, eq_comm]

theorem accept_stands {source : List Char} {s : Script} {line : Nat} {phrase : Phrase} {item : Item}
    (h : Stands source line phrase item) (hnew : ∀ n ∈ phrase.targetName?, n ∉ s.namesTaken) :
    s.accept source line phrase = .ok (s.push item) := by
  cases h with
  | comment text => rfl
  | assign name value => rfl
  | oneLine name command => exact addTarget_eq_ok_iff.2 ⟨hnew name rfl, rfl⟩
  | @block name body t ht =>
    simp only [accept, ht]
    refine addTarget_eq_ok_iff.2 ⟨?_, rfl⟩
    rw [(TargetDecl.ofPhrases_eq_ok ht).1]
    exact hnew name rfl

theorem stands_of_accept {source : List Char} {s s' : Script} {line : Nat} {phrase : Phrase}
    (h : s.accept source line phrase = .ok s') (hhelp : phrase.helpText? = none) :
    ∃ item, Stands source line phrase item ∧ (∀ n ∈ phrase.targetName?, n ∉ s.namesTaken) ∧
      s' = s.push item := by
  cases phrase with
  | comment text =>
    cases h
    exact ⟨_, .comment text, by simp [Phrase.targetName?], rfl⟩
  | assign name value =>
    cases h
    exact ⟨_, .assign name value, by simp [Phrase.targetName?], rfl⟩
  | oneLine name command =>
    obtain ⟨hnew, rfl⟩ := addTarget_eq_ok_iff.1 h
    have hname : (TargetDecl.ofCommand name line command).name = name := rfl
    rw [hname] at hnew
    exact ⟨_, .oneLine name command, by simpa [Phrase.targetName?] using hnew, rfl⟩
  | block name body =>
    simp only [accept] at h
    split at h
    · rename_i t ht
      obtain ⟨hnew, rfl⟩ := addTarget_eq_ok_iff.1 h
      rw [(TargetDecl.ofPhrases_eq_ok ht).1] at hnew
      exact ⟨_, .block ht, by simpa [Phrase.targetName?] using hnew, rfl⟩
    · cases h
  | help text => cases hhelp
  | command | python | arg | exit | yield => cases h

/-- **Step.** A phrase fills the place of the help text or is the next item. -/
theorem accept_eq_ok_iff {source : List Char} {s s' : Script} {line : Nat} {phrase : Phrase} :
    s.accept source line phrase = .ok s' ↔
      (∃ text, phrase = .help text ∧ s.help = none ∧ s' = { s with help := some text }) ∨
      ∃ item, Stands source line phrase item ∧
        (∀ n ∈ phrase.targetName?, n ∉ s.namesTaken) ∧ s' = s.push item := by
  have hfill : ∀ text, s.accept source line (.help text) = .ok s' ↔
      s.help = none ∧ s' = { s with help := some text } := by
    intro text
    cases hslot : s.help <;> simp [accept, hslot, eq_comm]
  constructor
  · intro h
    cases htext : phrase.helpText? with
    | none => exact .inr (stands_of_accept h htext)
    | some text =>
      cases phrase <;> cases htext
      exact .inl ⟨text, rfl, (hfill text).1 h⟩
  · rintro (⟨text, rfl, h⟩ | ⟨item, hstands, hnew, rfl⟩)
    · exact (hfill text).2 h
    · exact accept_stands hstands hnew

theorem namesTaken_push (s : Script) (item : Item) :
    (s.push item).namesTaken = s.namesTaken ++ (item.target?.map TargetDecl.name).toList := by
  rw [namesTaken, targets_push, List.map_append, namesTaken]
  cases item.target? <;> rfl

/-- Every item of a script is what some phrase is at the top level. -/
theorem stands_of_mem {source : List Char} {ps : List Placed} {script : Script}
    (h : ofPhrases source ps = .ok script) :
    ∀ item ∈ script.items, ∃ p ∈ ps, Stands source (lineOf source p.1) p.2 item := by
  refine foldlM_invariant (fun script : Script => ∀ item ∈ script.items, ∃ p ∈ ps,
    Stands source (lineOf source p.1) p.2 item) ?_ (by simp [empty]) h
  intro p hp s s' hs hstep item hitem
  rcases accept_eq_ok_iff.1 hstep with ⟨text, -, -, rfl⟩ | ⟨new, hnew, -, rfl⟩
  · exact hs item hitem
  · rcases List.mem_append.1 hitem with hitem | hitem
    · exact hs item hitem
    · cases List.mem_singleton.1 hitem
      exact ⟨p, hp, hnew⟩

/-- A phrase that may stand at the top level, for itself. -/
def Fits (source : List Char) (p : Placed) : Prop :=
  p.2.helpText? ≠ none ∨ ∃ item, Stands source (lineOf source p.1) p.2 item

theorem checks (source : List Char) :
    Checks (fun (s : Script) p => s.accept source (lineOf source p.1) p.2) (Fits source)
      Phrase.targetName? namesTaken Script.help where
  isOk_iff s p := by
    simp only [accept_eq_ok_iff, Fits]
    constructor
    · rintro ⟨s', ⟨text, hp, hslot, -⟩ | ⟨item, hstands, hnew, -⟩⟩
      · rw [hp]
        exact ⟨.inl (by simp [Phrase.helpText?]), by simp [Phrase.targetName?], .inr hslot⟩
      · exact ⟨.inr ⟨item, hstands⟩, hnew, .inl hstands.helpText?_eq⟩
    · rintro ⟨hfits, hnew, hhelp⟩
      cases htext : p.2.helpText? with
      | none =>
        obtain ⟨item, hstands⟩ := hfits.resolve_left (by simp [htext])
        exact ⟨_, .inr ⟨item, hstands, hnew, rfl⟩⟩
      | some text =>
        have hslot := hhelp.resolve_left (by simp [htext])
        have hp : p.2 = .help text := by
          cases hp : p.2 <;> simp_all [Phrase.helpText?]
        exact ⟨_, .inl ⟨text, hp, hslot, rfl⟩⟩
  names_eq s p s' h := by
    rcases accept_eq_ok_iff.1 h with ⟨text, hp, -, rfl⟩ | ⟨item, hstands, -, rfl⟩
    · simp [hp, Phrase.targetName?, namesTaken, targets]
    · rw [namesTaken_push, hstands.target_name]
  help_eq s p s' h := by
    rcases accept_eq_ok_iff.1 h with ⟨text, hp, -, rfl⟩ | ⟨item, hstands, -, rfl⟩
    · simp [hp, Phrase.helpText?]
    · simp [hstands.helpText?_eq, push]

theorem fits_block_iff {source s : List Char} {name : String} {body : List Placed} :
    Fits source (s, .block name body) ↔
      targetNames body = [] ∧ (argNames body).Nodup ∧ (helpTexts body).length ≤ 1 := by
  rw [← TargetDecl.ofPhrases_isOk_iff source name (lineOf source s)]
  constructor
  · rintro (hhelp | ⟨item, hstands⟩)
    · exact absurd rfl hhelp
    · cases hstands with
      | block ht => exact ⟨_, ht⟩
  · rintro ⟨t, ht⟩
    exact .inr ⟨_, .block ht⟩

/-- A phrase does not fit if it belongs inside of a target, or is a target with a misfit inside. -/
theorem violation_of_not_fits {source : List Char} {ps : List Placed} {p : Placed} (hp : p ∈ ps)
    (h : ¬ Fits source p) : Violation ps := by
  obtain ⟨s, phrase⟩ := p
  cases phrase with
  | comment text => exact absurd (.inr ⟨_, .comment text⟩) h
  | help text => exact absurd (.inl (by simp [Phrase.helpText?])) h
  | assign name value => exact absurd (.inr ⟨_, .assign name value⟩) h
  | oneLine name command => exact absurd (.inr ⟨_, .oneLine name command⟩) h
  | block name body =>
    rw [fits_block_iff] at h
    by_cases htargets : targetNames body = []
    · by_cases hargs : (argNames body).Nodup
      · exact .secondHelpInside hp (by by_contra hle; exact h ⟨htargets, hargs, by omega⟩)
      · exact .sameArgument hp hargs
    · exact .targetInside hp htargets
  | command text => exact .command hp
  | python text => exact .python hp
  | arg a => exact .argument hp
  | exit code => exact .exit hp
  | yield => exact .yield hp

theorem not_fits_of_violation (source : List Char) {ps : List Placed} (h : Violation ps) :
    (∃ p ∈ ps, ¬ Fits source p) ∨ ¬ (targetNames ps).Nodup ∨ 1 < (helpTexts ps).length := by
  have hmisfit : ∀ {s phrase}, (s, phrase) ∈ ps → ¬ Fits source (s, phrase) →
      (∃ p ∈ ps, ¬ Fits source p) ∨ ¬ (targetNames ps).Nodup ∨ 1 < (helpTexts ps).length :=
    fun hp hfits => .inl ⟨_, hp, hfits⟩
  cases h with
  | command hp | python hp | argument hp | exit hp | yield hp =>
    refine hmisfit hp ?_
    rintro (hhelp | ⟨item, hstands⟩)
    · exact hhelp rfl
    · cases hstands
  | targetInside hp hbody => exact hmisfit hp fun hfits => hbody (fits_block_iff.1 hfits).1
  | sameArgument hp hbody => exact hmisfit hp fun hfits => hbody (fits_block_iff.1 hfits).2.1
  | secondHelpInside hp hbody =>
    exact hmisfit hp fun hfits => absurd (fits_block_iff.1 hfits).2.2 (by omega)
  | sameTarget hnames => exact .inr (.inl hnames)
  | secondHelp hhelps => exact .inr (.inr hhelps)

/-- The phrases of a script can be put in their places unless there is a violation. -/
theorem ofPhrases_isOk_iff {source : List Char} {ps : List Placed} :
    (∃ s, ofPhrases source ps = .ok s) ↔ ¬ Violation ps := by
  have hrun := (checks source).run ps empty List.nodup_nil
  have hiff : (∃ s, ofPhrases source ps = .ok s) ↔
      (∀ p ∈ ps, Fits source p) ∧ (targetNames ps).Nodup ∧ (helpTexts ps).length ≤ 1 := by
    simpa [ofPhrases, empty, namesTaken, targets, targetNames] using hrun
  rw [hiff]
  constructor
  · rintro ⟨hfits, hnames, hhelps⟩ hv
    rcases not_fits_of_violation source hv with ⟨p, hp, hmisfit⟩ | h | h
    · exact hmisfit (hfits p hp)
    · exact h hnames
    · omega
  · intro hv
    refine ⟨fun p hp => ?_, ?_, ?_⟩
    · by_contra hmisfit
      exact hv (violation_of_not_fits hp hmisfit)
    · by_contra hnames
      exact hv (.sameTarget hnames)
    · by_contra hhelps
      exact hv (.secondHelp (by omega))

theorem parse_eq_ok_iff {source : String} {filename : Option String} {script : Script} :
    parse source filename = .ok script ↔
      ∃ ps, phrases? source.toList = some ps ∧ ofPhrases source.toList ps = .ok script := by
  cases hps : phrases? source.toList with
  | none => simp [parse_of_phrases_none hps]
  | some ps =>
    rw [parse_of_phrases hps]
    cases h : ofPhrases source.toList ps <;> simp [Except.mapError, h]

end Script

end TaskRunner
