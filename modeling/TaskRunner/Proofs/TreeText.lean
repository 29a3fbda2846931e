import Mathlib.Data.List.Forall2
import TaskRunner.Proofs.ReadScript
import TaskRunner.Proofs.Shown
import TaskRunner.Script.Tree

/-!
# The tree shows the script

The tree of a script has one line for the script, one for each item and one for each statement of a
target, and from the lines the script can be told, up to line numbers, the wording of help texts and
numbers that are written alike (`Script.tree_shows`). A line is made of a branch, a tag that says
what kind of node it is, and a detail behind a colon. Lines of items start with another character
than lines of statements, so what belongs to which target is not lost.
-/
namespace TaskRunner

open Grammar
open Text (StopsAt)

/-! ## Scripts that look alike -/

/-- One statement, but for its line, the wording of a help text and numbers that are written
alike. -/
inductive Statement.Alike : Statement → Statement → Prop
  | comment (text : String) : Alike (.comment text) (.comment text)
  | assign (name : String) {e e' : Expr} (line line' : Nat) : e.Alike e' →
    Alike (.assign ⟨name, e, line⟩) (.assign ⟨name, e', line'⟩)
  | arg (name : String) (required : Bool) {help help' : Option String} :
    help.isSome = help'.isSome → Alike (.arg ⟨name, required, help⟩) (.arg ⟨name, required, help'⟩)
  | command (template : String) (line line' : Nat) :
    Alike (.command template line) (.command template line')
  | python (template : String) (line line' : Nat) :
    Alike (.python template line) (.python template line')
  | exit (line line' : Nat) : Alike (.exit none line) (.exit none line')
  | exitWith {e e' : Expr} (line line' : Nat) : e.Alike e' →
    Alike (.exit (some e) line) (.exit (some e') line')
  | yield : Alike .yield .yield

inductive Item.Alike : Item → Item → Prop
  | comment (text : String) : Alike (.comment text) (.comment text)
  | assign (name : String) {e e' : Expr} (line line' : Nat) : e.Alike e' →
    Alike (.assign ⟨name, e, line⟩) (.assign ⟨name, e', line'⟩)
  | target (name : String) {help help' : Option String} {body body' : List Statement}
    (line line' : Nat) : help.isSome = help'.isSome → List.Forall₂ Statement.Alike body body' →
    Alike (.target ⟨name, help, body, line⟩) (.target ⟨name, help', body', line'⟩)

/-- The same items and statements, in the same order and nesting. -/
structure Script.Alike (s s' : Script) : Prop where
  help : s.help.isSome = s'.help.isSome
  items : List.Forall₂ Item.Alike s.items s'.items

/-! ## Nodes and their labels -/

def Item.body : Item → List Statement
  | .target t => t.body
  | _ => []

def Item.label : Item → String
  | .comment text => "COMMENT: " ++ text
  | .assign a => a.label
  | .target t => t.label

/-- The labels of all nodes, a target before its statements: one for the script, one for each item,
and one for each statement. -/
def Script.labels (s : Script) : List String :=
  ("ROOT" ++ Tree.helpMark s.help) ::
    s.items.flatMap fun item => item.label :: item.body.map Statement.label

def Statement.exprs : Statement → List Expr
  | .assign a => [a.value]
  | .exit code _ => code.toList
  | _ => []

def Item.exprs : Item → List Expr
  | .comment _ => []
  | .assign a => [a.value]
  | .target t => t.body.flatMap Statement.exprs

/-- The numbers that are written in a script. -/
def Script.numbers (s : Script) : List Number := s.items.flatMap fun item =>
  item.exprs.flatMap Expr.numbers

namespace Tree

/-- What stands before the first colon of a label. -/
inductive Tag where
  | comment | assign | arg (required help : Bool) | command | python | exit | yield
  | target (help : Bool)
deriving DecidableEq

def mark (help : Bool) : String := if help then " [HAS_HELP]" else ""

def Tag.text : Tag → String
  | .comment => "COMMENT"
  | .assign => "ASSIGN"
  | .arg required help => (if required then "ARG_REQ" else "ARG_OPT") ++ mark help
  | .command => "SCRIPT"
  | .python => "SCRIPT_PY"
  | .exit => "EXIT"
  | .yield => "YIELD"
  | .target help => "TARGET" ++ mark help

def Tag.all : List Tag :=
  [.comment, .assign, .arg true true, .arg true false, .arg false true, .arg false false, .command,
    .python, .exit, .yield, .target true, .target false]

theorem Tag.mem_all (t : Tag) : t ∈ all := by
  rcases t with _ | _ | ⟨_ | _, _ | _⟩ | _ | _ | _ | _ | ⟨_ | _⟩ <;> decide

theorem Tag.text_injective {t t' : Tag} (h : t.text.toList = t'.text.toList) : t = t' := by
  have hall : ∀ t ∈ all, ∀ t' ∈ all, t.text.toList = t'.text.toList → t = t' := by decide +kernel
  exact hall t t.mem_all t' t'.mem_all h

/-- There is no colon and no line feed in a tag. -/
theorem Tag.clean (t : Tag) : ∀ c ∈ t.text.toList, c ≠ ':' ∧ c ≠ '\n' := by
  have hall : ∀ t ∈ all, (t.text.toList.all fun c => c != ':' && c != '\n') = true := by
    decide +kernel
  simpa [List.all_eq_true] using hall t t.mem_all

theorem helpMark_eq (help : Option String) : helpMark help = mark help.isSome := by
  cases help <;> rfl

/-- A detail with the colon before it. -/
def behindColon : Option String → String
  | none => ""
  | some detail => ": " ++ detail

theorem toList_behindColon (detail : String) :
    (behindColon (some detail)).toList = ':' :: ' ' :: detail.toList := by
  simp [behindColon]

/-- A label can be taken apart at its first colon. -/
theorem label_inj {t t' : Tag} {d d' : Option String}
    (h : t.text ++ behindColon d = t'.text ++ behindColon d') : t = t' ∧ d = d' := by
  have htag (t : Tag) : ∀ c ∈ t.text.toList, (c != ':') = true := fun c hc => by
    simpa using (t.clean c hc).1
  have hcolon (d : Option String) : StopsAt (· != ':') (behindColon d).toList := by
    cases d with
    | none => exact Text.stopsAt_nil
    | some detail => simp [toList_behindColon]
  have hlists := congrArg String.toList h
  rw [String.toList_append, String.toList_append] at hlists
  obtain ⟨ht, hd⟩ := Text.run_append_inj (hcolon d) (hcolon d') (htag t) (htag t') hlists
  refine ⟨Tag.text_injective ht, ?_⟩
  rcases d with _ | d <;> rcases d' with _ | d'
  · rfl
  · rw [toList_behindColon] at hd
    cases hd
  · rw [toList_behindColon] at hd
    cases hd
  · rw [toList_behindColon, toList_behindColon] at hd
    simpa [String.toList_inj] using hd

theorem newline_not_mem_label {t : Tag} {d : Option String}
    (h : ∀ detail ∈ d, '\n' ∉ detail.toList) : '\n' ∉ (t.text ++ behindColon d).toList := by
  rw [String.toList_append, List.mem_append]
  rintro (htag | hdetail)
  · exact (t.clean _ htag).2 rfl
  · cases d with
    | none => cases hdetail
    | some detail =>
      rw [toList_behindColon] at hdetail
      exact h detail rfl (by simpa using hdetail)

end Tree

/-! ## Assignments -/

theorem OneLine.newline_not_mem {text : String} (h : OneLine text) : '\n' ∉ text.toList :=
  fun hmem => absurd (h _ hmem) (by decide)

theorem Expr.alike_of_toText {e e' : Expr} (h : e.Legible) (h' : e'.Legible)
    (htext : e.toText = e'.toText) : e.Alike e' := by
  refine (shown_append_inj h h' (u := []) (v := []) Text.stopsAt_nil Text.stopsAt_nil ?_).1
  simpa using String.ofList_injective htext

namespace Assignment

def detail (a : Assignment) : String := a.name ++ " = " ++ a.value.toText

theorem label_eq (a : Assignment) :
    a.label = Tree.Tag.assign.text ++ Tree.behindColon (some a.detail) := by
  have hsplit : "ASSIGN: " = "ASSIGN" ++ ": " := rfl
  simp only [label, hsplit, Tree.Tag.text, Tree.behindColon, detail, String.append_assoc]

theorem detail_inj {a a' : Assignment} (ha : IsOwnName a.name) (ha' : IsOwnName a'.name)
    (he : a.value.Legible) (he' : a'.value.Legible) (h : a.detail = a'.detail) :
    a.name = a'.name ∧ a.value.Alike a'.value := by
  have hlists := congrArg String.toList h
  simp only [detail, String.toList_append, List.append_assoc] at hlists
  have hstop (w : List Char) : StopsAt isNameChar (" = ".toList ++ w) := by
    rw [show " = ".toList = [' ', '=', ' '] from rfl]
    simp [isNameChar, isLetter, isDigit]
  obtain ⟨hname, hrest⟩ := Text.run_append_inj (hstop _) (hstop _) ha.1.isNameChar ha'.1.isNameChar
    hlists
  have hvalue := List.append_cancel_left hrest
  exact ⟨String.toList_inj.1 hname, Expr.alike_of_toText he he' (String.toList_inj.1 hvalue)⟩

theorem newline_not_mem_detail {a : Assignment} (ha : IsOwnName a.name) (he : a.value.IsRead) :
    '\n' ∉ a.detail.toList := by
  have hname : '\n' ∉ a.name.toList := fun hmem => absurd (ha.1.isNameChar _ hmem) (by decide)
  have hvalue : '\n' ∉ a.value.toText.toList := by
    simpa [Expr.toText] using Expr.newline_not_mem_shown he
  simp [detail, hname, hvalue]

end Assignment

/-! ## Statements -/

namespace Statement

def tag : Statement → Tree.Tag
  | .comment _ => .comment
  | .assign _ => .assign
  | .arg a => .arg a.required a.help.isSome
  | .command _ _ => .command
  | .python _ _ => .python
  | .exit _ _ => .exit
  | .yield => .yield

def detail : Statement → Option String
  | .comment text => some text
  | .assign a => some a.detail
  | .arg a => some a.name
  | .command template _ => some template
  | .python template _ => some template
  | .exit code _ => code.map Expr.toText
  | .yield => none

theorem label_eq (s : Statement) : s.label = s.tag.text ++ Tree.behindColon s.detail := by
  cases s with
  | comment text => rfl
  | assign a => exact a.label_eq
  | arg a =>
    simp only [label, ArgDecl.label, tag, Tree.Tag.text, detail, Tree.behindColon,
      Tree.helpMark_eq, String.append_assoc]
  | command => rfl
  | python => rfl
  | exit code line => cases code <;> rfl
  | yield => rfl

theorem newline_not_mem_label {s : Statement} (hs : s.Tidy) (he : ∀ e ∈ s.exprs, e.IsRead) :
    '\n' ∉ s.label.toList := by
  rw [label_eq]
  refine Tree.newline_not_mem_label fun detail hdetail => ?_
  cases s with
  | comment text =>
    cases hdetail
    exact hs.newline_not_mem
  | assign a =>
    cases hdetail
    exact a.newline_not_mem_detail hs (he _ (by simp [exprs]))
  | arg a =>
    cases hdetail
    exact fun hmem => absurd (hs.isNameChar _ hmem) (by decide)
  | command template | python template =>
    cases hdetail
    exact hs.1.newline_not_mem
  | exit code line =>
    obtain ⟨e, rfl, rfl⟩ := Option.map_eq_some_iff.1 hdetail
    simpa [Expr.toText] using Expr.newline_not_mem_shown (he e (by simp [exprs]))
  | yield => cases hdetail

theorem Alike.label_eq {s s' : Statement} (h : s.Alike s') : s.label = s'.label := by
  cases h with
  | comment | command | python | exit | yield => rfl
  | assign name _ _ he | exitWith _ _ he =>
    simp only [label, Assignment.label, Expr.toText, he.shown_eq]
  | arg name required hhelp => simp only [label, ArgDecl.label, Tree.helpMark_eq, hhelp]

/-- Tidy, and with legible expressions. -/
structure Legible (s : Statement) : Prop where
  tidy : s.Tidy
  exprs : ∀ e ∈ s.exprs, e.Legible

/-- **What a statement is can be told from its label.** -/
theorem alike_of_label {s s' : Statement} (hs : s.Legible) (hs' : s'.Legible)
    (h : s.label = s'.label) : s.Alike s' := by
  obtain ⟨hs, he⟩ := hs
  obtain ⟨hs', he'⟩ := hs'
  rw [label_eq, label_eq] at h
  obtain ⟨htag, hdetail⟩ := Tree.label_inj h
  cases s with
  | comment text =>
    cases s' with
    | comment text' =>
      cases hdetail
      exact .comment text
    | _ => cases htag
  | assign a =>
    cases s' with
    | assign a' =>
      obtain ⟨hname, hvalue⟩ := Assignment.detail_inj hs hs' (he _ (by simp [exprs]))
        (he' _ (by simp [exprs])) (Option.some.inj hdetail)
      obtain ⟨name, e, line⟩ := a
      obtain ⟨name', e', line'⟩ := a'
      cases hname
      exact .assign name line line' hvalue
    | _ => cases htag
  | arg a =>
    cases s' with
    | arg a' =>
      obtain ⟨name, required, help⟩ := a
      obtain ⟨name', required', help'⟩ := a'
      obtain ⟨rfl, hhelp⟩ := Tree.Tag.arg.inj htag
      cases hdetail
      exact .arg name required hhelp
    | _ => cases htag
  | command template line =>
    cases s' with
    | command template' line' =>
      cases hdetail
      exact .command template line line'
    | _ => cases htag
  | python template line =>
    cases s' with
    | python template' line' =>
      cases hdetail
      exact .python template line line'
    | _ => cases htag
  | exit code line =>
    cases s' with
    | exit code' line' =>
      rcases code with _ | e <;> rcases code' with _ | e'
      · exact .exit line line'
      · cases hdetail
      · cases hdetail
      · exact .exitWith line line' (Expr.alike_of_toText (he e (by simp [exprs]))
          (he' e' (by simp [exprs])) (Option.some.inj hdetail))
    | _ => cases htag
  | yield =>
    cases s' with
    | yield => exact .yield
    | _ => cases htag

theorem alike_of_labels : ∀ {body body' : List Statement}, (∀ s ∈ body, s.Legible) →
    (∀ s ∈ body', s.Legible) → body.map label = body'.map label → List.Forall₂ Alike body body'
  | [], [], _, _, _ => .nil
  | [], _ :: _, _, _, h => by cases h
  | _ :: _, [], _, _, h => by cases h
  | s :: body, s' :: body', hs, hs', h => by
    obtain ⟨hlabel, hrest⟩ := List.cons.inj h
    exact .cons (alike_of_label (hs s (by simp)) (hs' s' (by simp)) hlabel)
      (alike_of_labels (fun x hx => hs x (by simp [hx])) (fun x hx => hs' x (by simp [hx])) hrest)

end Statement

/-! ## Rows of a level -/

namespace Tree

/-- The branch before an entry that is the last one or not. -/
def branch (last : Bool) : String := if last then "└─" else "├─"

/-- What stands to the left of the rows below such an entry. -/
def indent (last : Bool) : String := if last then "  " else "│ "

theorem toList_branch (last : Bool) :
    (branch last).toList = [if last then '└' else '├', '─'] := by
  cases last <;> rfl

theorem toList_indent (last : Bool) :
    (indent last).toList = [if last then ' ' else '│', ' '] := by
  cases last <;> rfl

theorem rows_cons {α : Type} (row : String → String → α → List String) (a : α) (rest : List α) :
    rows row (a :: rest) = row (branch rest.isEmpty) (indent rest.isEmpty) a ++ rows row rest := by
  cases rest with
  | nil => simp [rows, branch, indent]
  | cons b rest => simp [rows, branch, indent]

theorem rows_congr {α : Type} (row : String → String → α → List String) {R : α → α → Prop}
    (hrow : ∀ {a a'}, R a a' → ∀ left right, row left right a = row left right a') {as as' : List α}
    (h : List.Forall₂ R as as') : rows row as = rows row as' := by
  induction h with
  | nil => rfl
  | @cons a a' rest rest' ha hrest ih =>
    have hlast : rest.isEmpty = rest'.isEmpty := by cases hrest <;> rfl
    rw [rows_cons, rows_cons, hrow ha, ih, hlast]

/-- A row that starts with a branch. -/
def isHead (row : String) : Bool := row.toList.head?.any fun c => c == '└' || c == '├'

theorem isHead_branch (last : Bool) (label : String) : isHead (branch last ++ label) = true := by
  cases last <;> simp [isHead, toList_branch]

theorem isHead_indent (last : Bool) (label : String) : isHead (indent last ++ label) = false := by
  cases last <;> simp [isHead, toList_indent]

theorem eq_of_append {left left' label label' : String}
    (hlength : left.toList.length = left'.toList.length) (h : left ++ label = left' ++ label') :
    label = label' := by
  have hlists := congrArg String.toList h
  rw [String.toList_append, String.toList_append] at hlists
  exact String.toList_inj.1 (List.append_inj hlists hlength).2

theorem branch_append_inj {last last' : Bool} {label label' : String}
    (h : branch last ++ label = branch last' ++ label') : label = label' :=
  eq_of_append (by rw [toList_branch, toList_branch]; rfl) h

theorem indent_append_inj {last last' : Bool} {label label' : String}
    (h : indent last ++ label = indent last' ++ label') : label = label' :=
  eq_of_append (by rw [toList_indent, toList_indent]; rfl) h

theorem newline_not_mem_branch {last : Bool} {label : String} (h : '\n' ∉ label.toList) :
    '\n' ∉ (branch last ++ label).toList := by
  cases last <;> simp [toList_branch, h]

theorem newline_not_mem_indent {last : Bool} {label : String} (h : '\n' ∉ label.toList) :
    '\n' ∉ (indent last ++ label).toList := by
  cases last <;> simp [toList_indent, h]

/-- The rows below a target. -/
def below (left : String) (body : List Statement) : List String :=
  rows (fun b _ s => [left ++ b ++ s.label]) body

theorem below_cons (left : String) (s : Statement) (body : List Statement) :
    below left (s :: body) = (left ++ (branch body.isEmpty ++ s.label)) :: below left body := by
  rw [below, rows_cons, String.append_assoc]
  rfl

theorem mem_below {left row : String} {body : List Statement} (h : row ∈ below left body) :
    ∃ s ∈ body, ∃ last, row = left ++ (branch last ++ s.label) := by
  induction body with
  | nil => cases h
  | cons s body ih =>
    rw [below_cons] at h
    rcases List.mem_cons.1 h with rfl | hmem
    · exact ⟨s, by simp, _, rfl⟩
    · obtain ⟨s', hs', last, rfl⟩ := ih hmem
      exact ⟨s', by simp [hs'], last, rfl⟩

theorem labels_of_below {last last' : Bool} : ∀ {body body' : List Statement},
    below (indent last) body = below (indent last') body' →
    body.map Statement.label = body'.map Statement.label
  | [], [], _ => rfl
  | [], s :: body', h => by rw [below_cons] at h; cases h
  | s :: body, [], h => by rw [below_cons] at h; cases h
  | s :: body, s' :: body', h => by
    rw [below_cons, below_cons] at h
    obtain ⟨hrow, hrest⟩ := List.cons.inj h
    rw [List.map_cons, List.map_cons, branch_append_inj (indent_append_inj hrow),
      labels_of_below hrest]

/-- The line is that of the node with the label. -/
def Ends (line label : String) : Prop := label.toList <:+ line.toList

theorem ends_append (left label : String) : Ends (left ++ label) label := by
  rw [Ends, String.toList_append]
  exact List.suffix_append _ _

theorem below_ends (left : String) (body : List Statement) :
    List.Forall₂ Ends (below left body) (body.map Statement.label) := by
  induction body with
  | nil => exact .nil
  | cons s body ih =>
    rw [below_cons, ← String.append_assoc]
    exact .cons (ends_append _ _) ih

end Tree

/-! ## Items -/

namespace Item

def tag : Item → Tree.Tag
  | .comment _ => .comment
  | .assign _ => .assign
  | .target t => .target t.help.isSome

def detail : Item → String
  | .comment text => text
  | .assign a => a.detail
  | .target t => t.name

theorem label_eq (item : Item) :
    item.label = item.tag.text ++ Tree.behindColon (some item.detail) := by
  cases item with
  | comment text => rfl
  | assign a => exact a.label_eq
  | target t =>
    simp only [label, TargetDecl.label, tag, Tree.Tag.text, detail, Tree.behindColon,
      Tree.helpMark_eq, String.append_assoc]

theorem rows_eq (left right : String) (item : Item) :
    item.rows left right = (left ++ item.label) :: Tree.below right item.body := by
  cases item with
  | comment text => simp [rows, label, body, Tree.below, Tree.rows, String.append_assoc]
  | assign a => rfl
  | target t => rfl

theorem mem_exprs_of_body {item : Item} {s : Statement} {e : Expr} (hs : s ∈ item.body)
    (he : e ∈ s.exprs) : e ∈ item.exprs := by
  cases item with
  | comment | assign => cases hs
  | target t => exact List.mem_flatMap.2 ⟨s, hs, he⟩

theorem Tidy.body {item : Item} (h : item.Tidy) : ∀ s ∈ item.body, s.Tidy := by
  cases item with
  | comment | assign => exact fun s hs => by cases hs
  | target t => exact h.2

theorem newline_not_mem_label {item : Item} (hitem : item.Tidy) (he : ∀ e ∈ item.exprs, e.IsRead) :
    '\n' ∉ item.label.toList := by
  rw [label_eq]
  refine Tree.newline_not_mem_label fun detail hdetail => ?_
  cases hdetail
  cases item with
  | comment text => exact OneLine.newline_not_mem hitem
  | assign a => exact a.newline_not_mem_detail hitem (he _ (by simp [exprs]))
  | target t => exact fun hmem => absurd (hitem.1.1.isNameChar _ hmem) (by decide)

/-- Tidy, and with legible expressions. -/
structure Legible (item : Item) : Prop where
  tidy : item.Tidy
  exprs : ∀ e ∈ item.exprs, e.Legible

theorem Legible.body {item : Item} (h : item.Legible) : ∀ s ∈ item.body, s.Legible :=
  fun s hs => ⟨h.tidy.body s hs, fun e he => h.exprs e (mem_exprs_of_body hs he)⟩

/-- **What an item is can be told from its label and the labels below it.** -/
theorem alike_of_label {item item' : Item} (hitem : item.Legible) (hitem' : item'.Legible)
    (h : item.label = item'.label)
    (hbelow : item.body.map Statement.label = item'.body.map Statement.label) :
    item.Alike item' := by
  have hbody := Statement.alike_of_labels hitem.body hitem'.body hbelow
  obtain ⟨hitem, he⟩ := hitem
  obtain ⟨hitem', he'⟩ := hitem'
  rw [label_eq, label_eq] at h
  obtain ⟨htag, hdetail⟩ := Tree.label_inj h
  have hdetail := Option.some.inj hdetail
  cases item with
  | comment text =>
    cases item' with
    | comment text' =>
      cases hdetail
      exact .comment text
    | _ => cases htag
  | assign a =>
    cases item' with
    | assign a' =>
      obtain ⟨hname, hvalue⟩ := Assignment.detail_inj hitem hitem' (he _ (by simp [exprs]))
        (he' _ (by simp [exprs])) hdetail
      obtain ⟨name, e, line⟩ := a
      obtain ⟨name', e', line'⟩ := a'
      cases hname
      exact .assign name line line' hvalue
    | _ => cases htag
  | target t =>
    cases item' with
    | target t' =>
      obtain ⟨name, help, body, line⟩ := t
      obtain ⟨name', help', body', line'⟩ := t'
      cases hdetail
      exact .target name line line' (Tree.Tag.target.inj htag) hbody
    | _ => cases htag

theorem Alike.rows_eq {item item' : Item} (h : item.Alike item') (left right : String) :
    item.rows left right = item'.rows left right := by
  cases h with
  | comment text => rfl
  | assign name _ _ he => simp only [rows, Assignment.label, Expr.toText, he.shown_eq]
  | target name _ _ hhelp hbody =>
    have hbelow := Tree.rows_congr (fun b _ s => [right ++ b ++ Statement.label s])
      (fun hs _ _ => by rw [hs.label_eq]) hbody
    simp only [rows, TargetDecl.label, Tree.helpMark_eq, hhelp, hbelow]

end Item

/-! ## The whole tree -/

namespace Tree

theorem isHead_of_rows {items : List Item} :
    ∀ row ∈ (rows Item.rows items).head?, isHead row = true := by
  intro row hrow
  cases items with
  | nil => cases hrow
  | cons item items =>
    rw [rows_cons, Item.rows_eq] at hrow
    cases hrow
    exact isHead_branch _ _

/-- **What items there are can be told from their rows.** The row of an item starts with a branch
and the rows below it do not, so each item comes with its own statements. -/
theorem alike_of_rows : ∀ {items items' : List Item}, (∀ item ∈ items, item.Legible) →
    (∀ item ∈ items', item.Legible) → rows Item.rows items = rows Item.rows items' →
    List.Forall₂ Item.Alike items items'
  | [], [], _, _, _ => .nil
  | [], _ :: _, _, _, h => by
    rw [rows_cons, Item.rows_eq] at h
    cases h
  | _ :: _, [], _, _, h => by
    rw [rows_cons, Item.rows_eq] at h
    cases h
  | item :: items, item' :: items', hitems, hitems', h => by
    rw [rows_cons, rows_cons, Item.rows_eq, Item.rows_eq] at h
    obtain ⟨hhead, htail⟩ := List.cons.inj h
    have hbelow {last : Bool} {body : List Statement} :
        ∀ row ∈ below (indent last) body, (!isHead row) = true := by
      intro row hrow
      obtain ⟨s, -, last', rfl⟩ := mem_below hrow
      rw [isHead_indent]
      rfl
    have hstop {items : List Item} : ∀ row ∈ (rows Item.rows items).head?, (!isHead row) = false :=
      fun row hrow => by rw [isHead_of_rows row hrow]; rfl
    obtain ⟨hbody, hrest⟩ := Text.run_append_inj hstop hstop hbelow hbelow htail
    refine .cons (Item.alike_of_label (hitems item (by simp)) (hitems' item' (by simp))
      (branch_append_inj hhead) (labels_of_below hbody)) ?_
    exact alike_of_rows (fun x hx => hitems x (by simp [hx])) (fun x hx => hitems' x (by simp [hx]))
      hrest

/-- Lines without a line feed in them can be told from the text that they make. -/
theorem lines_inj : ∀ {lines lines' : List String}, (∀ line ∈ lines, '\n' ∉ line.toList) →
    (∀ line ∈ lines', '\n' ∉ line.toList) →
    String.join (lines.map (· ++ "\n")) = String.join (lines'.map (· ++ "\n")) → lines = lines'
  | [], [], _, _, _ => rfl
  | [], line :: lines, _, _, h => by
    have := congrArg String.toList h
    simp at this
  | line :: lines, [], _, _, h => by
    have := congrArg String.toList h
    simp at this
  | line :: lines, line' :: lines', hlines, hlines', h => by
    have hlists := congrArg String.toList h
    simp only [List.map_cons, String.join_cons, String.toList_append, List.append_assoc] at hlists
    have hrun {line : String} (hline : '\n' ∉ line.toList) :
        ∀ c ∈ line.toList, (c != '\n') = true := by
      intro c hc
      rw [bne_iff_ne]
      rintro rfl
      exact hline hc
    have hstop (w : List Char) : StopsAt (· != '\n') ("\n".toList ++ w) := by
      rw [show "\n".toList = ['\n'] from rfl]
      simp
    obtain ⟨hline, hrest⟩ := Text.run_append_inj (hstop _) (hstop _)
      (hrun (hlines line (by simp))) (hrun (hlines' line' (by simp))) hlists
    have hrest := String.toList_inj.1 (List.append_cancel_left hrest)
    rw [String.toList_inj.1 hline, lines_inj (fun x hx => hlines x (by simp [hx]))
      (fun x hx => hlines' x (by simp [hx])) hrest]

theorem newline_not_mem_rows {items : List Item}
    (hitems : ∀ item ∈ items, item.Tidy ∧ ∀ e ∈ item.exprs, e.IsRead) :
    ∀ row ∈ rows Item.rows items, '\n' ∉ row.toList := by
  induction items with
  | nil => simp [rows]
  | cons item items ih =>
    obtain ⟨htidy, hread⟩ := hitems item (by simp)
    intro row hrow
    rw [rows_cons, Item.rows_eq, List.cons_append, List.mem_cons, List.mem_append] at hrow
    rcases hrow with rfl | hbelow | hrest
    · exact newline_not_mem_branch (Item.newline_not_mem_label htidy hread)
    · obtain ⟨s, hs, last, rfl⟩ := mem_below hbelow
      refine newline_not_mem_indent (newline_not_mem_branch ?_)
      exact Statement.newline_not_mem_label (htidy.body s hs)
        fun e he => hread e (Item.mem_exprs_of_body hs he)
    · exact ih (fun x hx => hitems x (by simp [hx])) row hrest

theorem rows_ends (items : List Item) : List.Forall₂ Ends (rows Item.rows items)
    (items.flatMap fun item => item.label :: item.body.map Statement.label) := by
  induction items with
  | nil => exact .nil
  | cons item items ih =>
    rw [rows_cons, Item.rows_eq, List.flatMap_cons]
    exact List.rel_append (.cons (ends_append _ _) (below_ends _ _)) ih

end Tree

/-! ## Scripts that were read -/

def Grammar.Phrase.exprs : Phrase → List Expr
  | .assign _ value => [value]
  | .exit code => code.toList
  | _ => []

theorem Grammar.Parser.Takes.isRead {depth : Nat} {body : Parser (List Placed)} {s r : List Char}
    {phrase : Phrase} (h : Parser.Takes (Parser.nested depth) body s phrase r) :
    ∀ e ∈ phrase.exprs, e.IsRead := by
  intro e he
  cases h with
  | exit _ hcode =>
    rcases Parser.run_optional_iff.1 hcode with ⟨e', hrun, rfl⟩ | ⟨-, rfl, -⟩
    · cases List.mem_singleton.1 he
      exact Parser.isRead_of_expression hrun
    · cases he
  | assign _ _ _ hrun =>
    cases List.mem_singleton.1 he
    exact Parser.isRead_of_expression hrun
  | _ => cases he

theorem Grammar.Phrase.exprs_of_statement {phrase : Phrase} {line : Nat} {s : Statement}
    (h : phrase.statement? line = some s) : s.exprs = phrase.exprs := by
  cases phrase <;> cases h <;> rfl

namespace Script

theorem isRead_of_parse {source : String} {filename : Option String} {script : Script}
    (h : parse source filename = .ok script) :
    ∀ item ∈ script.items, ∀ e ∈ item.exprs, e.IsRead := by
  obtain ⟨ps, hps, hscript⟩ := parse_eq_ok_iff.1 h
  have hwithin : Parser.Within (fun _ phrase => ∀ e ∈ phrase.exprs, e.IsRead) source.toList ps :=
    Parser.phrases?_within (fun _ e he => by cases he) Parser.Takes.isRead hps
  intro item hitem e he
  obtain ⟨⟨s, phrase⟩, hp, hstands⟩ := stands_of_mem hscript item hitem
  cases (hwithin _ hp).2 with
  | intro hphrase _ hinside =>
    cases hstands with
    | comment text => cases he
    | assign name value => exact hphrase e he
    | oneLine name command =>
      obtain ⟨s, hs, he⟩ := List.mem_flatMap.1 he
      cases List.mem_singleton.1 hs
      cases he
    | @block name body t ht =>
      obtain ⟨s, hs, he⟩ := List.mem_flatMap.1 he
      obtain ⟨q, hq, hstatement⟩ := TargetDecl.statement_of_mem ht s hs
      rw [Phrase.exprs_of_statement hstatement] at he
      cases hinside name body rfl q hq with
      | intro hread => exact hread e he

/-- **Every script that was read has one line for each node in its tree.** -/
theorem tree_lines {source : String} {filename : Option String} {s : Script}
    (h : parse source filename = .ok s) :
    (∀ row ∈ s.rows, '\n' ∉ row.toList) ∧ List.Forall₂ Tree.Ends s.rows s.labels := by
  refine ⟨fun row hrow => ?_, .cons (List.suffix_refl _) (Tree.rows_ends s.items)⟩
  rcases List.mem_cons.1 hrow with rfl | hrow
  · rw [Tree.helpMark_eq]
    cases s.help.isSome <;> decide
  · have hitems : ∀ item ∈ s.items, item.Tidy ∧ ∀ e ∈ item.exprs, e.IsRead := fun item hitem =>
      ⟨(tidy_of_parse h).items item hitem, isRead_of_parse h item hitem⟩
    exact Tree.newline_not_mem_rows hitems row hrow

theorem Alike.tree_eq {s s' : Script} (h : s.Alike s') : s.tree = s'.tree := by
  have hitems : Tree.rows Item.rows s.items = Tree.rows Item.rows s'.items :=
    Tree.rows_congr Item.rows (fun hitem => hitem.rows_eq) h.items
  rw [tree, tree, rows, rows, Tree.helpMark_eq, Tree.helpMark_eq, h.help, hitems]

theorem legible_of_parse {source : String} {filename : Option String} {s : Script}
    (h : parse source filename = .ok s) (hfinite : ∀ x ∈ s.numbers, x.IsFinite) :
    ∀ item ∈ s.items, item.Legible := by
  intro item hitem
  refine ⟨(tidy_of_parse h).items item hitem, fun e he => ⟨isRead_of_parse h item hitem e he, ?_⟩⟩
  intro x hx
  exact hfinite x (List.mem_flatMap.2 ⟨item, hitem, List.mem_flatMap.2 ⟨e, he, hx⟩⟩)

theorem alike_of_tree {source source' : String} {filename filename' : Option String}
    {s s' : Script} (h : parse source filename = .ok s) (h' : parse source' filename' = .ok s')
    (hfinite : ∀ x ∈ s.numbers, x.IsFinite) (hfinite' : ∀ x ∈ s'.numbers, x.IsFinite)
    (htree : s.tree = s'.tree) : s.Alike s' := by
  have hrows : s.rows = s'.rows := Tree.lines_inj (tree_lines h).1 (tree_lines h').1 htree
  obtain ⟨hroot, hitems⟩ := List.cons.inj hrows
  refine ⟨?_, Tree.alike_of_rows (legible_of_parse h hfinite) (legible_of_parse h' hfinite') hitems⟩
  rw [Tree.helpMark_eq, Tree.helpMark_eq] at hroot
  revert hroot
  cases s.help.isSome <;> cases s'.help.isSome <;> decide

/-- **The tree of a script that was read shows it.** The tree is made of lines that end in a line
feed and hold no other, one for each node in order, each with the label of its node. And two scripts
without infinite numbers have one tree exactly if they have the same items and statements, up to
line numbers, the wording of help texts and numbers that are written alike. -/
theorem tree_shows {source source' : String} {filename filename' : Option String} {s s' : Script}
    (h : parse source filename = .ok s) (h' : parse source' filename' = .ok s') :
    (∃ lines : List String, s.tree = String.join (lines.map (· ++ "\n")) ∧
      (∀ line ∈ lines, '\n' ∉ line.toList) ∧ List.Forall₂ Tree.Ends lines s.labels) ∧
    ((∀ x ∈ s.numbers, x.IsFinite) → (∀ x ∈ s'.numbers, x.IsFinite) →
      (s.tree = s'.tree ↔ s.Alike s')) := by
  refine ⟨⟨s.rows, rfl, tree_lines h⟩, fun hfinite hfinite' => ⟨fun htree => ?_, Alike.tree_eq⟩⟩
  exact alike_of_tree h h' hfinite hfinite' htree

end Script

/-- Two scripts that differ in lines, in a help text and in a number, each time by less than the
tree shows. -/
def shownAlike : String × String :=
  ("x = -(a + 0.25) * \"\\\"\n\"\nt \x7b\n <n> \"who\"\n $ echo $x\n exit 1\n\x7d\n",
   "\nx = - (a+0.2500000001)*\"\\\"\n\"\n\nt \x7b\n <n> \"name\"\n\n $ echo $x\n exit 1\n\x7d\n")

theorem tree_shows_shownAlike :
    ∃ s s', Script.parse shownAlike.1 none = .ok s ∧ Script.parse shownAlike.2 none = .ok s' ∧
      s ≠ s' ∧ s.tree = "ROOT\n├─ASSIGN: x = (-(a + 0.25) * \"\\\"\\n\")\n└─TARGET: t\n" ++
        "  ├─ARG_REQ [HAS_HELP]: n\n  ├─SCRIPT: echo $x\n  └─EXIT: 1\n" ∧ s.Alike s' ∧
      ∃ lines : List String, s.tree = String.join (lines.map (· ++ "\n")) ∧
        (∀ line ∈ lines, '\n' ∉ line.toList) ∧ List.Forall₂ Tree.Ends lines s.labels := by
  have hparse : Script.parse shownAlike.1 none =
      .ok ⟨none, [.assign ⟨"x", .binary .mul (.negate (.binary .add (.var "a")
          (.number ⟨0x3fd0000000000000⟩))) (.text "\"\n"), 1⟩,
        .target ⟨"t", none, [.arg ⟨"n", true, some "who"⟩, .command "echo $x" 5,
          .exit (some (.number ⟨0x3ff0000000000000⟩)) 6], 3⟩]⟩ :=
    Script.parse_eq_ok_iff.2 ⟨_, rfl, rfl⟩
  have hparse' : Script.parse shownAlike.2 none =
      .ok ⟨none, [.assign ⟨"x", .binary .mul (.negate (.binary .add (.var "a")
          (.number ⟨0x3fd00000001b7ce0⟩))) (.text "\"\n"), 2⟩,
        .target ⟨"t", none, [.arg ⟨"n", true, some "name"⟩, .command "echo $x" 8,
          .exit (some (.number ⟨0x3ff0000000000000⟩)) 9], 5⟩]⟩ :=
    Script.parse_eq_ok_iff.2 ⟨_, rfl, rfl⟩
  obtain ⟨hlines, halike⟩ := Script.tree_shows hparse hparse'
  refine ⟨_, _, hparse, hparse', by decide, by decide +kernel, ?_, hlines⟩
  exact (halike (by decide) (by decide)).1 (by decide +kernel)

end TaskRunner
