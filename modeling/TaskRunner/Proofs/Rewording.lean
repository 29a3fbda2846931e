import TaskRunner.Proofs.Loop
import TaskRunner.Script.Placement

/-!
# Other words in the same script

`reword` puts other texts in the place of the help texts and text literals of a script and leaves
the rest of it as it is. Whether phrases may stand where they do does not depend on such texts: a
script of phrases with other words is the script with other words (`Script.ofPhrases_reword`).
-/
namespace TaskRunner

open Grammar

/-- A text as `g` gives it. -/
def Text.reword (g : List Char → List Char) (s : String) : String := String.ofList (g s.toList)

def Expr.reword (g : List Char → List Char) : Expr → Expr
  | .number x => .number x
  | .text s => .text (Text.reword g s)
  | .var name => .var name
  | .negate e => .negate (e.reword g)
  | .binary op l r => .binary op (l.reword g) (r.reword g)

def ArgDecl.reword (g : List Char → List Char) (a : ArgDecl) : ArgDecl :=
  { a with help := a.help.map (Text.reword g) }

namespace Grammar

mutual

/-- The phrase with other help texts and text literals, and with other texts behind the phrases
inside of it. Names, commands and comments stay as they are. -/
def Phrase.reword (g : List Char → List Char) : Phrase → Phrase
  | .comment text => .comment text
  | .help text => .help (Text.reword g text)
  | .assign name value => .assign name (value.reword g)
  | .oneLine name command => .oneLine name command
  | .block name body => .block name (rewordAll g body)
  | .command text => .command text
  | .python text => .python text
  | .arg a => .arg (a.reword g)
  | .exit code => .exit (code.map (Expr.reword g))
  | .yield => .yield

def rewordAll (g : List Char → List Char) : List Placed → List Placed
  | [] => []
  | (s, phrase) :: rest => (g s, phrase.reword g) :: rewordAll g rest

end

/-- `Phrase.reword` for a phrase and its place. -/
def rewordPlaced (g : List Char → List Char) (p : Placed) : Placed := (g p.1, p.2.reword g)

theorem rewordAll_eq_map (g : List Char → List Char) (ps : List Placed) :
    rewordAll g ps = ps.map (rewordPlaced g) := by
  induction ps with
  | nil => simp [rewordAll]
  | cons p ps ih => simp [rewordAll, rewordPlaced, ih]

end Grammar

def Assignment.reword (g : List Char → List Char) (a : Assignment) : Assignment :=
  { a with value := a.value.reword g }

def Statement.reword (g : List Char → List Char) : Statement → Statement
  | .assign a => .assign (a.reword g)
  | .arg a => .arg (a.reword g)
  | .exit code line => .exit (code.map (Expr.reword g)) line
  | s => s

def TargetDecl.reword (g : List Char → List Char) (t : TargetDecl) : TargetDecl :=
  { t with help := t.help.map (Text.reword g), body := t.body.map (Statement.reword g) }

def Item.reword (g : List Char → List Char) : Item → Item
  | .comment text => .comment text
  | .assign a => .assign (a.reword g)
  | .target t => .target (t.reword g)

/-- The script with other help texts, texts of arguments and text literals. Names, commands,
comments and line numbers stay as they are. -/
def Script.reword (g : List Char → List Char) (s : Script) : Script :=
  { help := s.help.map (Text.reword g), items := s.items.map (Item.reword g) }

/-! ## The same words -/

theorem Text.reword_id : Text.reword id = id := by
  funext s
  simp [Text.reword]

theorem Expr.reword_id (e : Expr) : e.reword id = e := by
  induction e with
  | number x => rfl
  | text s => simp [reword, Text.reword_id]
  | var name => rfl
  | negate e ih => rw [reword, ih]
  | binary op l r ihl ihr => rw [reword, ihl, ihr]

namespace Grammar

mutual

theorem Phrase.reword_id : ∀ phrase : Phrase, phrase.reword id = phrase
  | .block name body => by rw [Phrase.reword, rewordAll_id body]
  | .help text => by rw [Phrase.reword, Text.reword_id, id]
  | .assign name value => by rw [Phrase.reword, Expr.reword_id]
  | .arg a => by rw [Phrase.reword, ArgDecl.reword, Text.reword_id, Option.map_id, id]
  | .exit code => by
    have hid : Expr.reword id = id := funext Expr.reword_id
    rw [Phrase.reword, hid, Option.map_id, id]
  | .comment _ => rfl
  | .oneLine _ _ => rfl
  | .command _ => rfl
  | .python _ => rfl
  | .yield => rfl

theorem rewordAll_id : ∀ phrases : List Placed, rewordAll id phrases = phrases
  | [] => rfl
  | (s, phrase) :: rest => by rw [rewordAll, Phrase.reword_id phrase, rewordAll_id rest, id]

end

end Grammar

/-! ## Placement -/

section Placement

variable (g : List Char → List Char)

theorem TargetDecl.args_reword (t : TargetDecl) :
    (t.reword g).args = t.args.map (ArgDecl.reword g) := by
  simp only [args, reword, List.filterMap_map, List.map_filterMap]
  congr 1
  funext s
  cases s <;> rfl

theorem TargetDecl.accept_reword (t : TargetDecl) (line : Nat) (phrase : Phrase) :
    (t.reword g).accept line (phrase.reword g) = (t.accept line phrase).map (reword g) := by
  have hpush (s : Statement) : (t.reword g).push (s.reword g) = (t.push s).reword g := by
    simp [push, reword]
  have hnames (name : String) :
      (t.reword g).args.any (·.name == name) = t.args.any (·.name == name) := by
    simp [args_reword, ArgDecl.reword, Function.comp_def]
  cases phrase with
  | help text => cases h : t.help <;> simp [accept, Phrase.reword, reword, Except.map, h]
  | arg a =>
    simp only [accept, Phrase.reword, ArgDecl.reword, hnames]
    split
    · rfl
    · exact congrArg Except.ok (hpush (.arg a))
  | comment text => exact congrArg Except.ok (hpush (.comment text))
  | assign name value => exact congrArg Except.ok (hpush (.assign ⟨name, value, line⟩))
  | command text => exact congrArg Except.ok (hpush (.command text line))
  | python text => exact congrArg Except.ok (hpush (.python text line))
  | exit code => exact congrArg Except.ok (hpush (.exit code line))
  | yield => exact congrArg Except.ok (hpush .yield)
  | oneLine name command => rfl
  | block name body => rfl

theorem Script.targets_reword (s : Script) :
    (s.reword g).targets = s.targets.map (TargetDecl.reword g) := by
  simp only [targets, reword, List.filterMap_map, List.map_filterMap]
  congr 1
  funext item
  cases item <;> rfl

variable {g} {source source' : List Char}
  (hline : ∀ rest, lineOf source (g rest) = lineOf source' rest)
include hline

theorem TargetDecl.ofPhrases_reword (name : String) (line : Nat) (body : List Placed) :
    ofPhrases source name line (rewordAll g body) =
      (ofPhrases source' name line body).map (reword g) := by
  rw [rewordAll_eq_map]
  refine foldlM_commute (f := reword g) (fun t p => ?_) body ⟨name, none, [], line⟩
  rw [← hline]
  exact accept_reword g t _ p.2

theorem Script.accept_reword (s : Script) (line : Nat) (phrase : Phrase) :
    (s.reword g).accept source line (phrase.reword g) =
      (s.accept source' line phrase).map (reword g) := by
  have hpush (item : Item) : (s.reword g).push (item.reword g) = (s.push item).reword g := by
    simp [push, reword]
  have htarget (t : TargetDecl) :
      (s.reword g).addTarget (t.reword g) = (s.addTarget t).map (reword g) := by
    have hnames :
        (s.reword g).targets.any (·.name == t.name) = s.targets.any (·.name == t.name) := by
      simp [targets_reword, TargetDecl.reword, Function.comp_def]
    simp only [addTarget, TargetDecl.reword, hnames]
    split
    · rfl
    · exact congrArg Except.ok (hpush (.target t))
  cases phrase with
  | help text => cases h : s.help <;> simp [accept, Phrase.reword, reword, Except.map, h]
  | block name body =>
    simp only [accept, Phrase.reword, TargetDecl.ofPhrases_reword hline]
    cases TargetDecl.ofPhrases source' name line body with
    | error e => rfl
    | ok t => exact htarget t
  | oneLine name command => exact htarget (TargetDecl.ofCommand name line command)
  | comment text => exact congrArg Except.ok (hpush (.comment text))
  | assign name value => exact congrArg Except.ok (hpush (.assign ⟨name, value, line⟩))
  | command text => rfl
  | python text => rfl
  | arg a => rfl
  | exit code => rfl
  | yield => rfl

theorem Script.ofPhrases_reword (ps : List Placed) :
    ofPhrases source (ps.map (rewordPlaced g)) = (ofPhrases source' ps).map (reword g) := by
  refine foldlM_commute (f := reword g) (fun s p => ?_) ps empty
  rw [← hline]
  exact accept_reword hline s _ p.2

end Placement

end TaskRunner
