import TaskRunner.Inspect.Report
import TaskRunner.Proofs.JsonPrint

/-!
# Inspection loses nothing that it shows

`Registry.view` says what the inspection of a registry shows: help texts without the blanks around
them, and for each target its arguments, commands, lines of Python and variables. The text of the
inspection is JSON, and whoever reads it gets that view back (`Registry.view_of_inspect`), with
numbers and texts kept apart and whatever characters there are in them.
-/
namespace TaskRunner

/-! ## What is shown -/

namespace Inspect

structure ArgView where
  name : String
  required : Bool
  help : Option String
deriving DecidableEq, Repr

structure TargetView where
  name : String
  help : Option String
  args : List ArgView
  commands : List String
  /-- Left out if there are no lines of Python. -/
  python : Option (List String)
  captured : Scope
deriving DecidableEq, Repr

structure View where
  help : Option String
  targets : List TargetView
deriving DecidableEq, Repr

end Inspect

open Inspect (ArgView TargetView View)

def ArgDecl.view (a : ArgDecl) : ArgView := ⟨a.name, a.required, a.help.map Text.trimmed⟩

def Target.view (t : Target) : TargetView where
  name := t.name
  help := t.help.map Text.trimmed
  args := t.args.map ArgDecl.view
  commands := t.commands
  python := if t.pythonLines = [] then none else some t.pythonLines
  captured := t.globals

def Registry.view (r : Registry) : View := ⟨r.help.map Text.trimmed, r.targets.map Target.view⟩

def Value.number? : Value → Option Number
  | .number x => some x
  | .text _ => none

/-- The numbers that are captured by the targets. -/
def Registry.numbers (r : Registry) : List Number :=
  r.targets.flatMap fun t => t.globals.entries.filterMap fun e => e.2.number?

/-! ## The view of a JSON value -/

namespace Json

def field? (name : String) : Json → Option Json
  | .object fields => Bindings.lookup name fields
  | _ => none

def string? : Json → Option String
  | .string s => some s
  | _ => none

def bool? : Json → Option Bool
  | .bool b => some b
  | _ => none

/-- A text or nothing. -/
def text? : Json → Option (Option String)
  | .null => some none
  | .string s => some (some s)
  | _ => none

def list? {α : Type} (read : Json → Option α) : Json → Option (List α)
  | .array es => es.mapM read
  | _ => none

def value? : Json → Option Value
  | .number x => some (.number x)
  | .string s => some (.text s)
  | _ => none

def scope? : Json → Option Scope
  | .object fields =>
    (fields.mapM fun f : String × Json => f.2.value?.map fun v => (f.1, v)).map Bindings.mk
  | _ => none

end Json

namespace Inspect

def ArgView.ofJson? (j : Json) : Option ArgView := do
  let name ← (← j.field? "name").string?
  let required ← (← j.field? "required").bool?
  let help ← (← j.field? "help").text?
  some ⟨name, required, help⟩

/-- The lines of Python, if there is such a field. -/
def pythonOfJson? (j : Json) : Option (Option (List String)) :=
  match j.field? "python" with
  | none => some none
  | some lines => (lines.list? Json.string?).map some

def TargetView.ofJson? (j : Json) : Option TargetView := do
  let name ← (← j.field? "name").string?
  let help ← (← j.field? "help").text?
  let args ← (← j.field? "args").list? ArgView.ofJson?
  let commands ← (← j.field? "commands").list? Json.string?
  let python ← pythonOfJson? j
  let captured ← (← j.field? "variables").scope?
  some ⟨name, help, args, commands, python, captured⟩

def View.ofJson? (j : Json) : Option View := do
  let help ← (← j.field? "help").text?
  let targets ← (← j.field? "targets").list? TargetView.ofJson?
  some ⟨help, targets⟩

theorem text?_help (s : Option String) : (help s).text? = some (s.map Text.trimmed) := by
  cases s <;> rfl

theorem list?_map {α β : Type} {f : α → Json} {g : α → β} (read : Json → Option β)
    (h : ∀ a, read (f a) = some (g a)) (l : List α) :
    (Json.array (l.map f)).list? read = some (l.map g) := by
  induction l with
  | nil => rfl
  | cons a l ih =>
    rw [Json.list?] at ih ⊢
    simp [h, ih]

theorem list?_strings (ss : List String) : (strings ss).list? Json.string? = some ss := by
  have hstrings := list?_map (f := Json.string) (g := id) Json.string? (fun _ => rfl) ss
  rwa [List.map_id] at hstrings

theorem ofJson?_argument (a : ArgDecl) : ArgView.ofJson? (argument a) = some a.view := by
  simp [ArgView.ofJson?, argument, Json.field?, Bindings.lookup, Json.string?, Json.bool?,
    text?_help, ArgDecl.view]

theorem value?_toJson (v : Value) : v.toJson.value? = some v := by
  cases v <;> rfl

theorem scope?_entries (scope : Scope) :
    (Json.object (scope.entries.map fun e => (e.1, e.2.toJson))).scope? = some scope := by
  obtain ⟨entries⟩ := scope
  have hentries : (entries.map fun e => (e.1, e.2.toJson)).mapM
      (fun f : String × Json => f.2.value?.map fun v => (f.1, v)) = some entries := by
    induction entries with
    | nil => rfl
    | cons e entries ih => simp [value?_toJson, ih]
  rw [Json.scope?, hentries]
  rfl

theorem ofJson?_target (t : Target) : TargetView.ofJson? (target t) = some t.view := by
  have hargs := list?_map ArgView.ofJson? ofJson?_argument t.args
  by_cases hpython : t.pythonLines = [] <;>
    simp [TargetView.ofJson?, target, Json.field?, Bindings.lookup, Json.string?, text?_help, hargs,
      list?_strings, pythonOfJson?, pythonField, hpython, scope?_entries, Target.view]

theorem ofJson?_report (r : Registry) : View.ofJson? r.report = some r.view := by
  have htargets := list?_map TargetView.ofJson? ofJson?_target r.targets
  simp [View.ofJson?, Registry.report, Json.field?, Bindings.lookup, text?_help, htargets,
    Registry.view]

/-! ## Where numbers stand -/

theorem not_occurs_help {x : Number} {s : Option String} : ¬Json.Occurs x (help s) := by
  intro h
  cases s <;> cases h

theorem not_occurs_strings {x : Number} {ss : List String} : ¬Json.Occurs x (strings ss) := by
  rintro (_ | ⟨hmem, h⟩)
  obtain ⟨s, -, rfl⟩ := List.mem_map.1 hmem
  cases h

theorem not_occurs_argument {x : Number} {a : ArgDecl} : ¬Json.Occurs x (argument a) := by
  intro h
  cases h with
  | object hmem h =>
    simp only [List.mem_cons, List.not_mem_nil, or_false] at hmem
    rcases hmem with rfl | rfl | rfl
    · cases h
    · cases h
    · exact not_occurs_help h

theorem occurs_target {x : Number} {t : Target} (h : Json.Occurs x (target t)) :
    x ∈ t.globals.entries.filterMap fun e => e.2.number? := by
  cases h with
  | object hmem h =>
    simp only [List.mem_append, List.mem_cons, List.not_mem_nil, or_false] at hmem
    rcases hmem with ((rfl | rfl | rfl | rfl) | hpython) | rfl
    · cases h
    · exact absurd h not_occurs_help
    · cases h with
      | array he h =>
        obtain ⟨a, -, rfl⟩ := List.mem_map.1 he
        exact absurd h not_occurs_argument
    · exact absurd h not_occurs_strings
    · unfold pythonField at hpython
      split at hpython
      · cases hpython
      · cases List.mem_singleton.1 hpython
        exact absurd h not_occurs_strings
    · cases h with
      | object he h =>
        obtain ⟨⟨name, v⟩, hentry, rfl⟩ := List.mem_map.1 he
        refine List.mem_filterMap.2 ⟨(name, v), hentry, ?_⟩
        cases v <;> cases h
        rfl

theorem occurs_report {x : Number} {r : Registry} (h : Json.Occurs x r.report) : x ∈ r.numbers := by
  cases h with
  | object hmem h =>
    simp only [List.mem_cons, List.not_mem_nil, or_false] at hmem
    rcases hmem with rfl | rfl
    · exact absurd h not_occurs_help
    · cases h with
      | array he h =>
        obtain ⟨t, ht, rfl⟩ := List.mem_map.1 he
        exact List.mem_flatMap.2 ⟨t, ht, occurs_target h⟩

end Inspect

/-- **Inspection loses nothing that it shows.** If no infinite number is captured, the text of the
inspection is JSON, and whatever value it stands for, the reader gives that value and the value has
the view of the registry. -/
theorem Registry.view_of_inspect (r : Registry) (hfinite : ∀ x ∈ r.numbers, x.IsFinite) :
    (∃ j, Json.Document r.inspect.toList j) ∧
    ∀ j, Json.Document r.inspect.toList j →
      Json.read? r.inspect.toList = some j ∧ View.ofJson? j = some r.view := by
  have hreport : Json.Document r.inspect.toList r.report :=
    Json.document_pretty fun x hx => hfinite x (Inspect.occurs_report hx)
  refine ⟨⟨r.report, hreport⟩, fun j hj => ⟨Json.read?_of_document hj, ?_⟩⟩
  have hsame : some j = some r.report :=
    (Json.read?_of_document hj).symm.trans (Json.read?_of_document hreport)
  rw [Option.some.inj hsame]
  exact Inspect.ofJson?_report r

/-- Two targets, with a number and a text that look alike, `-0` and the least number above zero, and
characters that have to be escaped. -/
def inspected : Registry where
  help := some " all \"targets\" \n"
  targets := [
    { name := "a", help := none, args := [⟨"n", true, some "\twho\x01"⟩, ⟨"m", false, none⟩]
      globals := ⟨[("text", .text "1"), ("x", .number ⟨0x3ff0000000000000⟩)]⟩
      steps := [.python "print(\"é\")", .run "echo \\ $n", .yield, .run "make"] },
    { name := "b", help := some "", args := [], globals := ⟨[("y", .number ⟨1⟩),
        ("z", .number ⟨0x8000000000000000⟩)]⟩, steps := [] }]

theorem view_of_inspect_inspected :
    (∀ x ∈ inspected.numbers, x.IsFinite) ∧
    ∃ j, Json.Document inspected.inspect.toList j ∧ Json.read? inspected.inspect.toList = some j ∧
      View.ofJson? j = some
        { help := some "all \"targets\""
          targets := [
            { name := "a", help := none, args := [⟨"n", true, some "who\x01"⟩, ⟨"m", false, none⟩]
              commands := ["echo \\ $n", "make"], python := some ["print(\"é\")"]
              captured := ⟨[("text", .text "1"), ("x", .number ⟨0x3ff0000000000000⟩)]⟩ },
            { name := "b", help := some "", args := [], commands := [], python := none
              captured := ⟨[("y", .number ⟨1⟩), ("z", .number ⟨0x8000000000000000⟩)]⟩ }] } := by
  have hfinite : ∀ x ∈ inspected.numbers, x.IsFinite := by decide
  obtain ⟨⟨j, hj⟩, hview⟩ := inspected.view_of_inspect hfinite
  obtain ⟨hread, hof⟩ := hview j hj
  refine ⟨hfinite, j, hj, hread, hof.trans (congrArg some ?_)⟩
  decide +kernel

end TaskRunner
