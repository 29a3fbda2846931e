import TaskRunner.Proofs.Placement

/-!
# Which scripts are refused

The builder has errors of two kinds. A tree may be out of place, and a tree may lack a part or have
one that nothing can be made of. For the trees of the grammar there is no error of the second kind,
and there is one of the first kind exactly if something is out of place (`parse_eq_error_iff`).
What that means is said of the trees alone (`OutOfPlace`). It is carried over from the phrases that
they say, for which it is shown in `Placement`.
-/
namespace TaskRunner

open Grammar Trees

/-! ## What is out of place -/

namespace Grammar.ParseTree

/-- The name of the target, or of the argument, that a tree is for. -/
def name (t : ParseTree) : String := String.ofList t.inside

/-- The trees in the braces of a target. -/
def members (t : ParseTree) : List ParseTree :=
  if t.kind = .targetBlock then (t.inner[1]?.map inner).getD [] else []

end Grammar.ParseTree

def targetKinds : List Construct := [.targetLine, .targetBlock]

def argumentKinds : List Construct := [.requiredArg, .optionalArg]

/-- The names of the trees of some kinds, in order. -/
def namesOf (kinds : List Construct) (ts : List ParseTree) : List String :=
  (ts.filter (·.kind ∈ kinds)).map ParseTree.name

/-- How many help blocks there are. -/
def helpCount (ts : List ParseTree) : Nat := ts.countP (·.kind = .helpBlock)

/-- Something among the trees of a script that does not stand where it may. -/
inductive OutOfPlace (ts : List ParseTree) : Prop
  | command {t : ParseTree} : t ∈ ts → t.kind ∈ [.commandLine, .pythonLine] → OutOfPlace ts
  | argument {t : ParseTree} : t ∈ ts → t.kind ∈ argumentKinds → OutOfPlace ts
  | exit {t : ParseTree} : t ∈ ts → t.kind ∈ [.exit, .yield] → OutOfPlace ts
  | targetInside {t u : ParseTree} : t ∈ ts → u ∈ t.members → u.kind ∈ targetKinds → OutOfPlace ts
  | sameTarget : ¬ (namesOf targetKinds ts).Nodup → OutOfPlace ts
  | sameArgument {t : ParseTree} : t ∈ ts → ¬ (namesOf argumentKinds t.members).Nodup →
    OutOfPlace ts
  | secondHelp : 1 < helpCount ts → OutOfPlace ts
  | secondHelpInside {t : ParseTree} : t ∈ ts → 1 < helpCount t.members → OutOfPlace ts

/-! ## The same of phrases -/

section

variable {t : ParseTree} {p : Placed} {ts : List ParseTree} {ps : List Placed}

/-- The kinds of the trees that say a phrase. -/
def Grammar.Phrase.kinds : Phrase → List Construct
  | .comment _ => [.comment]
  | .help _ => [.helpBlock]
  | .assign _ _ => [.assignment]
  | .oneLine _ _ => [.targetLine]
  | .block _ _ => [.targetBlock]
  | .command _ => [.commandLine]
  | .python _ => [.pythonLine]
  | .arg _ => [.requiredArg, .optionalArg]
  | .exit _ => [.exit]
  | .yield => [.yield]

theorem Grammar.Trees.Says.kind_mem (h : Says t p) : t.kind ∈ p.2.kinds := by
  cases h with
  | arg hk => simpa [Phrase.kinds] using hk
  | comment hk | help hk | assign hk | command hk | python hk | exit hk | yield hk
  | oneLine hk | block hk => simpa [Phrase.kinds] using hk

theorem Grammar.Trees.Says.targetName?_eq (h : Says t p) :
    p.2.targetName? = if t.kind ∈ targetKinds then some t.name else none := by
  cases h with
  | arg hk => rcases hk with hk | hk <;> simp [targetKinds, hk, Phrase.targetName?]
  | comment hk | help hk | assign hk | command hk | python hk | exit hk | yield hk
  | oneLine hk | block hk => simp [targetKinds, hk, Phrase.targetName?, ParseTree.name]

theorem Grammar.Trees.Says.argName?_eq (h : Says t p) :
    p.2.argName? = if t.kind ∈ argumentKinds then some t.name else none := by
  cases h with
  | arg hk =>
    rcases hk with hk | hk <;>
      simp [argumentKinds, hk, Phrase.argName?, ParseTree.name, ParseTree.argDecl]
  | comment hk | help hk | assign hk | command hk | python hk | exit hk | yield hk
  | oneLine hk | block hk => simp [argumentKinds, hk, Phrase.argName?]

theorem Grammar.Trees.Says.isSome_helpText? (h : Says t p) :
    p.2.helpText?.isSome = decide (t.kind = .helpBlock) := by
  cases h with
  | arg hk => rcases hk with hk | hk <;> simp [hk, Phrase.helpText?]
  | comment hk | help hk | assign hk | command hk | python hk | exit hk | yield hk
  | oneLine hk | block hk => simp [hk, Phrase.helpText?]

/-- The phrases that the trees in the braces of a target say. -/
theorem Grammar.Trees.Says.members (h : Says t p) :
    t.members = [] ∨ ∃ name body, p.2 = .block name body ∧ List.Forall₂ Says t.members body := by
  cases h with
  | arg hk => rcases hk with hk | hk <;> simp [ParseTree.members, hk]
  | @block t body ps hk hbody hps =>
    refine .inr ⟨_, ps, rfl, ?_⟩
    simpa [ParseTree.members, hk, hbody] using hps
  | comment hk | help hk | assign hk | command hk | python hk | exit hk | yield hk | oneLine hk =>
    simp [ParseTree.members, hk]

theorem names_eq_namesOf {kinds : List Construct} {name? : Phrase → Option String}
    (hname : ∀ {t p}, Says t p → name? p.2 = if t.kind ∈ kinds then some t.name else none)
    (h : List.Forall₂ Says ts ps) : ps.filterMap (name? ·.2) = namesOf kinds ts := by
  induction h with
  | nil => rfl
  | @cons t p ts ps hp _ ih =>
    rw [List.filterMap_cons, hname hp, ih]
    by_cases hk : t.kind ∈ kinds <;> simp [namesOf, hk]

theorem length_helpTexts (h : List.Forall₂ Says ts ps) :
    (helpTexts ps).length = helpCount ts := by
  induction h with
  | nil => rfl
  | @cons t p ts ps hp _ ih =>
    have hhelp := hp.isSome_helpText?
    unfold helpTexts helpCount at ih ⊢
    cases htext : p.2.helpText? <;> simp_all

theorem exists_of_mem_left {α β : Type} {R : α → β → Prop} {l : List α} {m : List β}
    (h : List.Forall₂ R l m) {a : α} (ha : a ∈ l) : ∃ b ∈ m, R a b := by
  induction h with
  | nil => cases ha
  | @cons c b l m hab _ ih =>
    rcases List.mem_cons.1 ha with rfl | ha
    · exact ⟨b, by simp, hab⟩
    · obtain ⟨b', hb', hab'⟩ := ih ha
      exact ⟨b', by simp [hb'], hab'⟩

theorem exists_of_mem_right {α β : Type} {R : α → β → Prop} {l : List α} {m : List β}
    (h : List.Forall₂ R l m) {b : β} (hb : b ∈ m) : ∃ a ∈ l, R a b :=
  exists_of_mem_left (R := flip R) h.flip hb

theorem violation_of_outOfPlace (h : List.Forall₂ Says ts ps) (hts : OutOfPlace ts) :
    Violation ps := by
  have hphrase {t : ParseTree} (ht : t ∈ ts) : ∃ s phrase, (s, phrase) ∈ ps ∧
      t.kind ∈ phrase.kinds := by
    obtain ⟨p, hp, hsay⟩ := exists_of_mem_left h ht
    exact ⟨p.1, p.2, hp, hsay.kind_mem⟩
  have hmembers {t : ParseTree} (ht : t ∈ ts) : t.members = [] ∨
      ∃ s name body, (s, Phrase.block name body) ∈ ps ∧ List.Forall₂ Says t.members body := by
    obtain ⟨⟨s, _⟩, hp, hsay⟩ := exists_of_mem_left h ht
    rcases hsay.members with hnone | ⟨name, body, rfl, hbody⟩
    · exact .inl hnone
    · exact .inr ⟨s, name, body, hp, hbody⟩
  cases hts with
  | command ht hk =>
    obtain ⟨s, phrase, hp, hkind⟩ := hphrase ht
    cases phrase with
    | command text => exact .command hp
    | python text => exact .python hp
    | _ => grind [Phrase.kinds]
  | argument ht hk =>
    obtain ⟨s, phrase, hp, hkind⟩ := hphrase ht
    cases phrase with
    | arg a => exact .argument hp
    | _ => grind [Phrase.kinds, argumentKinds]
  | exit ht hk =>
    obtain ⟨s, phrase, hp, hkind⟩ := hphrase ht
    cases phrase with
    | exit code => exact .exit hp
    | yield => exact .yield hp
    | _ => grind [Phrase.kinds]
  | @targetInside t u ht hu hk =>
    rcases hmembers ht with hnone | ⟨s, name, body, hp, hbody⟩
    · simp [hnone] at hu
    · obtain ⟨q, hq, hsay⟩ := exists_of_mem_left hbody hu
      have hname : u.name ∈ targetNames body := by
        refine List.mem_filterMap.2 ⟨q, hq, ?_⟩
        rw [hsay.targetName?_eq, if_pos hk]
      exact .targetInside hp (List.ne_nil_of_mem hname)
  | sameTarget hnames =>
    rw [← names_eq_namesOf Says.targetName?_eq h] at hnames
    exact .sameTarget hnames
  | sameArgument ht hnames =>
    rcases hmembers ht with hnone | ⟨s, name, body, hp, hbody⟩
    · simp [hnone, namesOf] at hnames
    · rw [← names_eq_namesOf Says.argName?_eq hbody] at hnames
      exact .sameArgument hp hnames
  | secondHelp hcount =>
    rw [← length_helpTexts h] at hcount
    exact .secondHelp hcount
  | secondHelpInside ht hcount =>
    rcases hmembers ht with hnone | ⟨s, name, body, hp, hbody⟩
    · simp [hnone, helpCount] at hcount
    · rw [← length_helpTexts hbody] at hcount
      exact .secondHelpInside hp hcount

theorem outOfPlace_of_violation (h : List.Forall₂ Says ts ps) (hps : Violation ps) :
    OutOfPlace ts := by
  have htree {s : List Char} {phrase : Phrase} (hp : (s, phrase) ∈ ps) :
      ∃ t ∈ ts, t.kind ∈ phrase.kinds := by
    obtain ⟨t, ht, hsay⟩ := exists_of_mem_right h hp
    exact ⟨t, ht, hsay.kind_mem⟩
  have hblock {s : List Char} {name : String} {body : List Placed}
      (hp : (s, Phrase.block name body) ∈ ps) : ∃ t ∈ ts, List.Forall₂ Says t.members body := by
    obtain ⟨t, ht, hsay⟩ := exists_of_mem_right h hp
    refine ⟨t, ht, ?_⟩
    cases hsay with
    | block hk hbody hps => simpa [ParseTree.members, hk, hbody] using hps
  cases hps with
  | command hp | python hp =>
    obtain ⟨t, ht, hkind⟩ := htree hp
    exact .command ht (by simp_all [Phrase.kinds])
  | argument hp =>
    obtain ⟨t, ht, hkind⟩ := htree hp
    exact .argument ht hkind
  | exit hp | yield hp =>
    obtain ⟨t, ht, hkind⟩ := htree hp
    exact .exit ht (by simp_all [Phrase.kinds])
  | targetInside hp hnames =>
    obtain ⟨t, ht, hbody⟩ := hblock hp
    obtain ⟨name, hname⟩ := List.exists_mem_of_ne_nil _ hnames
    obtain ⟨q, hq, hqname⟩ := List.mem_filterMap.1 hname
    obtain ⟨u, hu, hsay⟩ := exists_of_mem_right hbody hq
    rw [hsay.targetName?_eq] at hqname
    split at hqname
    · rename_i hk
      exact .targetInside ht hu hk
    · cases hqname
  | sameTarget hnames =>
    rw [targetNames, names_eq_namesOf Says.targetName?_eq h] at hnames
    exact .sameTarget hnames
  | sameArgument hp hnames =>
    obtain ⟨t, ht, hbody⟩ := hblock hp
    rw [argNames, names_eq_namesOf Says.argName?_eq hbody] at hnames
    exact .sameArgument ht hnames
  | secondHelp hcount =>
    rw [length_helpTexts h] at hcount
    exact .secondHelp hcount
  | secondHelpInside hp hcount =>
    obtain ⟨t, ht, hbody⟩ := hblock hp
    rw [length_helpTexts hbody] at hcount
    exact .secondHelpInside ht hcount

/-- Something is out of place among trees if it is among the phrases that they say. -/
theorem outOfPlace_iff (h : List.Forall₂ Says ts ps) : OutOfPlace ts ↔ Violation ps :=
  ⟨violation_of_outOfPlace h, outOfPlace_of_violation h⟩

end

/-! ## What is built -/

namespace Grammar.Trees

theorem number_builds {s r : List Char} {ts : List ParseTree} (h : number.run s = some (ts, r))
    (source : List Char) : ∃ t x, ts = [t] ∧ t.expr source = .ok (.number x) := by
  obtain ⟨x, -, t, rfl, -, ht⟩ := (number_agree s).exists_run h
  exact ⟨t, x, rfl, ht source⟩

theorem expression_builds {depth : Nat} {s r : List Char} {ts : List ParseTree}
    (h : (expression depth).run s = some (ts, r)) (source : List Char) :
    ∃ t e, ts = [t] ∧ t.expr source = .ok e := by
  obtain ⟨e, -, t, rfl, -, ht⟩ := (expression_agree depth s).exists_run h
  exact ⟨t, e, rfl, ht source⟩

theorem assignment_builds {depth : Nat} {s r : List Char} {ts : List ParseTree}
    (h : (assignment (expression depth)).run s = some (ts, r)) (source : List Char) :
    ∃ t a, ts = [t] ∧ t.assignment source = .ok a := by
  obtain ⟨phrase, -, t, rfl, hsay⟩ :=
    (assignment_agree (fun t => expression_agree depth t) s).exists_run h
  obtain ⟨_, -, _, ht, -⟩ := (tree_agree .assignment (.same _ s)).exists_run h
  have hkind : t.kind = .assignment := by
    rw [List.singleton_inj.1 ht]
    rfl
  cases hsay with
  | assign _ hvalue he =>
    exact ⟨t, _, rfl, by simp only [ParseTree.assignment, hvalue, he source]; rfl⟩
  | arg hk => rcases hk with hk | hk <;> simp [hk] at hkind
  | comment hk | help hk | command hk | python hk | exit hk | yield hk | oneLine hk | block hk =>
    simp [hk] at hkind

end Grammar.Trees

namespace Script

/-- **A script is refused exactly if something in it is out of place.** A text that the grammar
takes has a tree of its body, from which a script is built unless the body has something out of
place. What the builder says then is about that: the grammar has no assignment without a value, no
number that cannot be read, and no other tree that an expression cannot have. -/
theorem parse_eq_error_iff (source : String) (filename : Option String) :
    (∀ trees, trees? source.toList = some trees → ∃ body, bodyOf? trees = some body ∧
      ((∃ d, parse source filename = .error d) ↔ OutOfPlace body.inner)) ∧
    (∀ d, parse source filename = .error d →
      (trees? source.toList = none ∧
        d = (Diagnostic.unreadable source (furthest source.toList)).withFilename filename) ∨
      ∃ trees body line m, trees? source.toList = some trees ∧ bodyOf? trees = some body ∧
        ofTree source.toList body = .error (line, .misplaced m) ∧
        d = (Diagnostic.refused source (line, .misplaced m)).withFilename filename) ∧
    (∀ depth s ts r, (Trees.assignment (Trees.expression depth)).run s = some (ts, r) →
      ∃ t a, ts = [t] ∧ t.assignment source.toList = .ok a) ∧
    (∀ depth s ts r, (Trees.expression depth).run s = some (ts, r) →
      ∃ t e, ts = [t] ∧ t.expr source.toList = .ok e) ∧
    ∀ s ts r, Trees.number.run s = some (ts, r) →
      ∃ t x, ts = [t] ∧ t.expr source.toList = .ok (.number x) := by
  refine ⟨fun trees htrees => ?_, fun d hd => ?_,
    fun _ _ _ _ h => assignment_builds h source.toList,
    fun _ _ _ _ h => expression_builds h source.toList,
    fun _ _ _ h => number_builds h source.toList⟩
  · rcases trees?_phrases? source.toList with ⟨hnone, -⟩ | ⟨ts, body, ps, hts, hbody, hps, hsay⟩
    · simp [htrees] at hnone
    · obtain rfl := Option.some.inj (htrees.symm.trans hts)
      refine ⟨body, hbody, ?_⟩
      rw [outOfPlace_iff hsay, ← Classical.not_not (a := Violation ps), ← ofPhrases_isOk_iff,
        parse_of_phrases hps]
      cases ofPhrases source.toList ps <;> simp [Except.mapError]
  · rcases trees?_phrases? source.toList with ⟨hnone, -⟩ | ⟨ts, body, ps, hts, hbody, hps, hsay⟩
    · refine .inl ⟨hnone, ?_⟩
      rw [parse_of_trees_none hnone] at hd
      exact (Except.error.inj hd).symm
    · rw [parse_of_phrases hps] at hd
      have htree : ofTree source.toList body = _ := ofTree_eq hsay
      cases h : ofPhrases source.toList ps with
      | ok script =>
        rw [h] at hd
        cases hd
      | error e =>
        rw [h] at hd htree
        exact .inr ⟨ts, body, e.1, e.2, hts, hbody, htree, (Except.error.inj hd).symm⟩

/-- A target with two arguments of one name. -/
def secondName : String := "t \x7b\n<a>\n[a]\n\x7d"

theorem parse_eq_error_iff_sample :
    (∃ trees body d, trees? secondName.toList = some trees ∧ bodyOf? trees = some body ∧
        OutOfPlace body.inner ∧ parse secondName none = .error d ∧
        ∃ line m, ofTree secondName.toList body = .error (line, .misplaced m)) ∧
      (∃ t a, (Trees.assignment (Trees.expression 1)).run ['x', '=', 'y'] = some ([t], []) ∧
        t.assignment secondName.toList = .ok a) ∧
      (∃ t e, (Trees.expression 1).run ['-', 'y', ')'] = some ([t], [')']) ∧
        t.expr secondName.toList = .ok e) ∧
      ∃ t x, Trees.number.run ['.', '5', '+'] = some ([t], ['+']) ∧
        t.expr secondName.toList = .ok (.number x) := by
  obtain ⟨hiff, herror, hassignment, hexpr, hnumber⟩ := parse_eq_error_iff secondName none
  have hread : (trees? secondName.toList).isSome = true := by decide +kernel
  obtain ⟨trees, htrees⟩ := Option.isSome_iff_exists.1 hread
  obtain ⟨body, hbody, hrefused⟩ := hiff trees htrees
  have hparse : parse secondName none = .error ⟨"Argument 'a' is already declared for 't'", 3, 1,
      some 4, some "[a]", none, none⟩ := by decide +kernel
  have hbuilt : ∃ line m, ofTree secondName.toList body = .error (line, .misplaced m) := by
    rcases herror _ hparse with ⟨hnone, -⟩ | ⟨_, _, line, m, htrees', hbody', hm, -⟩
    · simp [htrees] at hnone
    · obtain rfl := Option.some.inj (htrees.symm.trans htrees')
      obtain rfl := Option.some.inj (hbody.symm.trans hbody')
      exact ⟨line, m, hm⟩
  refine ⟨⟨trees, body, _, htrees, hbody, hrefused.1 ⟨_, hparse⟩, hparse, hbuilt⟩, ?_, ?_, ?_⟩
  · obtain ⟨t, a, ht, ha⟩ := hassignment 1 ['x', '=', 'y'] _ _ rfl
    cases ht
    exact ⟨_, a, rfl, ha⟩
  · obtain ⟨t, e, ht, he⟩ := hexpr 1 ['-', 'y', ')'] _ _ rfl
    cases ht
    exact ⟨_, e, rfl, he⟩
  · obtain ⟨t, x, ht, hx⟩ := hnumber ['.', '5', '+'] _ _ rfl
    cases ht
    exact ⟨_, x, rfl, hx⟩

-- Trees that the grammar does not have, and what the builder says of them.
example : (ParseTree.node .assignment ['x'] [] []).assignment ['x'] =
    .error (1, .missingValue) := rfl

example : (ParseTree.node .number ['1', 'k'] [] []).expr ['1', 'k'] =
    .error (1, .invalidNumber "1k") := rfl

example : (ParseTree.node .minus ['-'] [] []).expr ['-'] = .error (1, .unexpected "-") := rfl

end Script

end TaskRunner
