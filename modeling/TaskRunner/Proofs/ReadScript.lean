import TaskRunner.Proofs.Causality
import TaskRunner.Proofs.Order
import TaskRunner.Proofs.TextLines

/-!
# What holds of every script that was read

The grammar and the placement of the phrases leave their mark on every script that comes out of
them: names are names and not reserved, commands and comments are on one line, line numbers never go
down, and no two targets have one name (`Script.tidy_of_parse`). Loading such a script checks the
names of the targets a second time, by other means, and never finds anything. All that can go wrong
there is the value of an assignment or of an exit code, and the message has the line of it
(`Script.parse_tidy`).
-/
namespace TaskRunner

open Grammar
open Text (StopsAt)

/-! ## Texts -/

theorem oneLine_restOfLine (s : List Char) : OneLine (String.ofList (Token.restOfLine s).1) := by
  intro c hc
  rw [String.toList_ofList] at hc
  simpa using List.mem_takeWhile_imp hc

theorem Grammar.Parser.isTemplate_of_commandText {s r : List Char} {text : String}
    (h : commandText.run s = some (text, r)) : IsTemplate text := by
  cases h
  rw [IsTemplate, String.toList_ofList]
  refine ⟨fun c hc => ?_, Text.stopsAt_trim _⟩
  rw [String.toList_ofList] at hc
  refine oneLine_restOfLine (s.dropWhile isGap) c ?_
  rw [String.toList_ofList]
  exact Text.mem_of_mem_trim hc

/-! ## Phrases, statements and items -/

/-- The names and texts of a phrase are in order, for itself. -/
def Grammar.Phrase.Tidy : Phrase → Prop
  | .comment text => OneLine text
  | .help _ => True
  | .assign name _ => IsOwnName name
  | .oneLine name text => IsOwnName name ∧ IsTemplate text
  | .block name _ => IsOwnName name
  | .command text => IsTemplate text
  | .python text => IsTemplate text
  | .arg a => Token.IsName a.name
  | .exit _ => True
  | .yield => True

theorem Grammar.Parser.Takes.tidy {expr : Parser Expr} {body : Parser (List Placed)}
    {s r : List Char} {phrase : Phrase} (h : Parser.Takes expr body s phrase r) : phrase.Tidy := by
  cases h with
  | help _ => trivial
  | command h => exact isTemplate_of_commandText h
  | python h => exact isTemplate_of_commandText h
  | required h | optional h =>
    obtain ⟨_, _, hname, -⟩ := h
    exact (Token.name_eq_some_iff.1 hname).1
  | exit _ _ => trivial
  | yield _ => trivial
  | block hown _ _ _ _ _ => exact hown
  | oneLine hown _ _ htext => exact ⟨hown, isTemplate_of_commandText htext⟩
  | assign hown _ _ _ => exact hown

def Statement.Tidy : Statement → Prop
  | .comment text => OneLine text
  | .assign a => IsOwnName a.name
  | .arg a => Token.IsName a.name
  | .command template _ => IsTemplate template
  | .python template _ => IsTemplate template
  | .exit _ _ => True
  | .yield => True

def Item.Tidy : Item → Prop
  | .comment text => OneLine text
  | .assign a => IsOwnName a.name
  | .target t => IsOwnName t.name ∧ ∀ s ∈ t.body, s.Tidy

/-- What the grammar and the placement of phrases see to. -/
structure Script.Tidy (s : Script) : Prop where
  items : ∀ item ∈ s.items, item.Tidy
  lines : s.lineNumbers.Pairwise (· ≤ ·)
  names : s.namesTaken.Nodup

theorem Grammar.Phrase.Tidy.statement {phrase : Phrase} (h : phrase.Tidy) {line : Nat}
    {s : Statement} (hs : phrase.statement? line = some s) : s.Tidy := by
  cases phrase <;> cases hs <;> exact h

/-- A phrase is as tidy as the item that it is at the top level. -/
theorem Stands.tidy {source : List Char} {line : Nat} {phrase : Phrase} {item : Item}
    (h : Stands source line phrase item) (hphrase : phrase.Tidy)
    (hinside : ∀ name body, phrase = .block name body → ∀ q ∈ body, q.2.Tidy) : item.Tidy := by
  cases h with
  | comment text => exact hphrase
  | assign name value => exact hphrase
  | oneLine name command =>
    refine ⟨hphrase.1, fun s hs => ?_⟩
    cases List.mem_singleton.1 hs
    exact hphrase.2
  | @block name body t ht =>
    refine ⟨(TargetDecl.ofPhrases_eq_ok ht).1 ▸ hphrase, fun s hs => ?_⟩
    obtain ⟨q, hq, hstatement⟩ := TargetDecl.statement_of_mem ht s hs
    exact (hinside name body rfl q hq).statement hstatement

namespace Script

/-- The names of the targets stay apart from phrase to phrase. -/
theorem names_nodup {source : List Char} {ps : List Placed} {script : Script}
    (h : ofPhrases source ps = .ok script) : script.namesTaken.Nodup := by
  have hempty : empty.namesTaken.Nodup := List.nodup_nil
  exact foldlM_invariant (fun s : Script => s.namesTaken.Nodup)
    (fun _ _ _ _ hs hstep => (checks source).nodup_names hs hstep) hempty h

/-- **Every script that was read is tidy.** -/
theorem tidy_of_parse {source : String} {filename : Option String} {script : Script}
    (h : parse source filename = .ok script) : script.Tidy := by
  obtain ⟨ps, hps, hscript⟩ := parse_eq_ok_iff.1 h
  have hwithin : Parser.Within (fun _ phrase => phrase.Tidy) source.toList ps :=
    Parser.phrases?_within oneLine_restOfLine Parser.Takes.tidy hps
  refine ⟨fun item hitem => ?_, lineNumbers_sorted h, names_nodup hscript⟩
  obtain ⟨⟨s, phrase⟩, hp, hstands⟩ := stands_of_mem hscript item hitem
  cases (hwithin _ hp).2 with
  | intro htidy _ hinside =>
    refine hstands.tidy htidy fun name body he q hq => ?_
    cases hinside name body he q hq with
    | intro htidy => exact htidy

end Script

/-! ## Errors of loading -/

/-- What can be wrong with a statement of a target, and the line that is given for it. -/
inductive Statement.Faults : Statement → LoadError → Prop
  | value (a : Assignment) (fault : EvalError) : Faults (.assign a) (.evaluation a.line fault)
  | code (e : Expr) (line : Nat) (fault : EvalError) :
    Faults (.exit (some e) line) (.evaluation line fault)
  | text (e : Expr) (line : Nat) (value : String) :
    Faults (.exit (some e) line) (.exitCode line value)

/-- What can be wrong with the values of an item. -/
inductive Item.Faults : Item → LoadError → Prop
  | value (a : Assignment) (fault : EvalError) : Faults (.assign a) (.evaluation a.line fault)
  | body {t : TargetDecl} {s : Statement} {e : LoadError} : s ∈ t.body → s.Faults e →
    Faults (.target t) e

theorem evalAt_eq_error {scope : Scope} {line : Nat} {e : Expr} {err : LoadError}
    (h : e.evalAt scope line = .error err) : ∃ fault, err = .evaluation line fault := by
  unfold Expr.evalAt at h
  split at h
  · cases h
  · rename_i fault _
    cases h
    exact ⟨fault, rfl⟩

theorem Statement.compile_eq_error {scope : Scope} {s : Statement} {e : LoadError}
    (h : s.compile scope = .error e) : s.Faults e := by
  cases s with
  | assign a =>
    simp only [compile] at h
    split at h
    · cases h
    · rename_i err herr
      cases h
      obtain ⟨fault, rfl⟩ := evalAt_eq_error herr
      exact .value a fault
  | exit code line =>
    cases code with
    | none => cases h
    | some code =>
      simp only [compile] at h
      split at h
      · rename_i err herr
        cases h
        obtain ⟨fault, rfl⟩ := evalAt_eq_error herr
        exact .code code line fault
      · rename_i v _
        cases v with
        | number x => cases h
        | text value =>
          cases h
          exact .text code line value
  | comment | arg | command | python | yield => cases h

theorem compileBody_eq_error {body : List Statement} {scope : Scope} {e : LoadError}
    (h : compileBody scope body = .error e) : ∃ s ∈ body, s.Faults e := by
  induction body generalizing scope with
  | nil => cases h
  | cons s body ih =>
    simp only [compileBody] at h
    split at h
    · rename_i err herr
      cases h
      exact ⟨s, by simp, Statement.compile_eq_error herr⟩
    · split at h
      · rename_i err herr
        cases h
        obtain ⟨s', hs', hfault⟩ := ih herr
        exact ⟨s', by simp [hs'], hfault⟩
      · cases h

namespace Registry

theorem register_eq_error {r : Registry} {t : Target} {e : LoadError}
    (h : r.register t = .error e) : t.name ∈ r.targets.map Target.name := by
  rw [register_eq] at h
  split at h
  · rename_i hsome
    obtain ⟨t', ht'⟩ := Option.isSome_iff_exists.1 hsome
    have hname : t'.name = t.name := by simpa using List.find?_some ht'
    exact hname ▸ List.mem_map_of_mem (List.mem_of_find?_eq_some ht')
  · cases h

/-- **Step.** An item cannot be loaded because of a value in it, or because its name is taken. -/
theorem addItem_eq_error {r : Registry} {g : Scope} {item : Item} {e : LoadError}
    (h : addItem (r, g) item = .error e) :
    item.Faults e ∨ ∃ t, item = .target t ∧ t.name ∈ r.targets.map Target.name := by
  cases item with
  | comment text => cases h
  | assign a =>
    simp only [addItem] at h
    split at h
    · cases h
    · rename_i err herr
      cases h
      obtain ⟨fault, rfl⟩ := evalAt_eq_error herr
      exact .inl (.value a fault)
  | target t =>
    simp only [addItem] at h
    split at h
    · rename_i err herr
      cases h
      unfold TargetDecl.compile at herr
      split at herr
      · cases herr
      · rename_i err' hbody
        cases herr
        obtain ⟨s, hs, hfault⟩ := compileBody_eq_error hbody
        exact .inl (.body hs hfault)
    · rename_i target htarget
      split at h
      · cases h
      · rename_i err herr
        refine .inr ⟨t, rfl, ?_⟩
        rw [← (TargetDecl.compile_eq_ok htarget).1]
        exact register_eq_error herr

/-- The names of the targets that some items define, in order. -/
def definedNames (items : List Item) : List String :=
  items.filterMap fun item => item.target?.map TargetDecl.name

/-- **Run.** The registry has the names that the items define. -/
theorem names_foldlM : ∀ {items : List Item} {r r' : Registry} {g g' : Scope},
    items.foldlM addItem (r, g) = .ok (r', g') →
    r'.targets.map Target.name = r.targets.map Target.name ++ definedNames items
  | [], _, _, _, _, h => by
    cases h
    simp [definedNames]
  | item :: items, r, r', g, g', h => by
    obtain ⟨⟨r₁, g₁⟩, hi, hrest⟩ := foldlM_cons_eq_ok.1 h
    rw [names_foldlM hrest]
    obtain ⟨_, rfl, rfl, -⟩ | ⟨_, _, rfl, -, rfl, -⟩ | ⟨t, target, rfl, ht, hr, -⟩ :=
      addItem_cases hi
    · rfl
    · rfl
    · rw [(register_eq_ok hr).2]
      simp [definedNames, Item.target?, (TargetDecl.compile_eq_ok ht).1]

/-- **If all names are different, only a value can be at fault.** -/
theorem faults_of_load {script : Script} {e : LoadError} (hnames : script.namesTaken.Nodup)
    (h : load script = .error e) : ∃ item ∈ script.items, item.Faults e := by
  obtain ⟨before, item, behind, ⟨r, g⟩, hitems, hbefore, hstep⟩ :=
    foldlM_eq_error (load_eq_error_iff.1 h)
  refine ⟨item, by simp [hitems], ?_⟩
  rcases addItem_eq_error hstep with hfault | ⟨t, rfl, hmem⟩
  · exact hfault
  · -- the name would have been defined before
    have htaken : script.namesTaken = definedNames before ++ t.name :: definedNames behind := by
      simp [Script.namesTaken, Script.targets, definedNames, hitems, List.map_filterMap,
        Item.target?]
    rw [names_foldlM hbefore] at hmem
    have hmem' : t.name ∈ definedNames before := by simpa [empty] using hmem
    rw [htaken] at hnames
    exact absurd rfl ((List.nodup_append.1 hnames).2.2 _ hmem' _ (by simp))

end Registry

/-- **A script that was read is tidy, and only its values can keep it from being loaded.** The names
of its targets and assignments are names and not reserved, its commands are on one line with no
blank at either end, its comments are on one line, and its line numbers never go down. An error of
loading it is about the value of an assignment or the code of an `exit`, and has its line; it is
never about a name that two targets share. -/
theorem Script.parse_tidy {source : String} {filename : Option String} {script : Script}
    (h : parse source filename = .ok script) :
    (∀ item ∈ script.items, item.Tidy) ∧ script.lineNumbers.Pairwise (· ≤ ·) ∧
      ∀ e, Registry.load script = .error e →
        (∃ item ∈ script.items, item.Faults e) ∧ ∀ name, e ≠ .duplicateTarget name := by
  obtain ⟨hitems, hlines, hnames⟩ := tidy_of_parse h
  refine ⟨hitems, hlines, fun e he => ?_⟩
  obtain ⟨item, hitem, hfault⟩ := Registry.faults_of_load hnames he
  refine ⟨⟨item, hitem, hfault⟩, ?_⟩
  rintro name rfl
  cases hfault with
  | body _ hstatement => cases hstatement

/-- A target with a text for an exit code, and another target behind it. -/
def textCode : String := "x = 1\n# a\nt \x7b\n $  echo $x \n exit \"no\"\n\x7d\nu: make\n"

theorem parse_tidy_textCode :
    ∃ script, Script.parse textCode none = .ok script ∧
      Registry.load script = .error (.exitCode 5 "no") ∧ script.lineNumbers = [1, 3, 4, 5, 7, 7] ∧
      (∀ item ∈ script.items, item.Tidy) ∧ script.lineNumbers.Pairwise (· ≤ ·) ∧
      ∃ item ∈ script.items, item.Faults (.exitCode 5 "no") := by
  have hparse : Script.parse textCode none =
      .ok ⟨none, [.assign ⟨"x", .number ⟨0x3ff0000000000000⟩, 1⟩, .comment " a",
        .target ⟨"t", none, [.command "echo $x" 4, .exit (some (.text "no")) 5], 3⟩,
        .target ⟨"u", none, [.command "make" 7], 7⟩]⟩ :=
    Script.parse_eq_ok_iff.2 ⟨_, rfl, rfl⟩
  obtain ⟨hitems, hlines, hload⟩ := Script.parse_tidy hparse
  exact ⟨_, hparse, rfl, rfl, hitems, hlines, (hload _ rfl).1⟩

end TaskRunner
