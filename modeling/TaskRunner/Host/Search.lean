import TaskRunner.Host.Ancestors
import TaskRunner.Host.Files

/-!
# Finding the script

The script is the file that was asked for, or `do.it` in the directory that was asked for. If nothing
was asked for it is the first `do.it` on the way from the current directory up to the home directory,
or to the root if home is not on the way.
-/
namespace TaskRunner

namespace Search

def scriptName : String := "do.it"

/-- The home directory. A variable that is set counts, even if it is empty. -/
def home? (env : Bindings String) : Option Path :=
  match env.get? "HOME", env.get? "USERPROFILE" with
  | some home, _ => some ⟨home⟩
  | none, some profile => some ⟨profile⟩
  | none, none =>
    match env.get? "HOMEDRIVE", env.get? "HOMEPATH" with
    | some drive, some path => some (Path.join ⟨drive⟩ ⟨path⟩)
    | _, _ => none

/-- The script that a path asks for. -/
def resolve? (h : Host) (p : Path) : Option Path :=
  let script := if h.isDirectory p then p.join ⟨scriptName⟩ else p
  if h.isFile script then some script else none

/-- The list up to and including the first entry with the property. -/
def upToFirst {α : Type} (stop : α → Bool) : List α → List α
  | [] => []
  | a :: rest => if stop a then [a] else a :: upToFirst stop rest

/-- The directories to look into, nearest first. -/
def directories (start : Path) (home : Option Path) : List Path :=
  upToFirst (fun d => home.any d.same) start.ancestors

/-- Looks for the script in a directory and, as long as it is not there, in the one above. The home
directory is looked into, but none above it. -/
def climb (isFile : Path → Bool) (home : Option Path) (dir : Path) : Option Path :=
  let script := dir.join ⟨scriptName⟩
  if isFile script then some script
  else if home.any dir.same then none
  else
    match _h : dir.parent? with
    | none => none
    | some above => climb isFile home above
termination_by dir.parts.length
decreasing_by exact Path.length_parts_of_parent? _h

def upwards? (h : Host) (start : Path) (home : Option Path) : Option Path :=
  climb h.isFile home start

def find? (h : Host) (custom : Option Path) : Option Path :=
  match custom with
  | some p => resolve? h p
  | none => upwards? h h.currentPath (home? h.env)

/-- All the paths that are looked at. -/
def candidates (h : Host) (custom : Option Path) : List Path :=
  match custom with
  | some p => [p, p.join ⟨scriptName⟩]
  | none => (directories h.currentPath (home? h.env)).map (·.join ⟨scriptName⟩)

/-- What came of looking for the script. -/
inductive Found where
  | nothing
  | unreadable (path : Path)
  | script (path : Path) (source : String)
deriving DecidableEq, Repr

/-- Finds and reads the script. An empty file counts as found. -/
def load (h : Host) (custom : Option Path) : Found :=
  match find? h custom with
  | none => .nothing
  | some p =>
    match h.readText? p with
    | some source => .script p source
    | none => .unreadable p

/-- What the log says about the search. -/
def Found.log : Found → List String
  | .unreadable p => ["WARN cannot read " ++ p.text ++ ": stream did not contain valid UTF-8"]
  | _ => []

end Search

end TaskRunner
