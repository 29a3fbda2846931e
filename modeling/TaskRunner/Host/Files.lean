import TaskRunner.Bindings
import TaskRunner.Host.Path

/-!
# Files and environment

The machine that a run sees: a tree of directories and files, a current directory and an
environment. A path is followed piece by piece, and every piece but the last has to lead to a
directory.
-/
namespace TaskRunner

/-- Programs that are at hand on every machine. -/
inductive Tool where
  | shell
  | succeed
  | refuse
deriving DecidableEq, Repr

inductive Node where
  | directory
  | file (contents : ByteArray) (executable : Bool)
  | tool (t : Tool)
  /-- A device that is always empty and keeps nothing. -/
  | sink

/-- Why a path leads nowhere, or a program cannot be started. -/
inductive HostError where
  | notFound
  | denied
  | notDirectory
  | notExecutable
  | tooDeep
  | nulByte
deriving DecidableEq, Repr

def HostError.message : HostError → String
  | .notFound => "No such file or directory (os error 2)"
  | .denied => "Permission denied (os error 13)"
  | .notDirectory => "Not a directory (os error 20)"
  | .notExecutable => "Exec format error (os error 8)"
  | .tooDeep => "Resource temporarily unavailable (os error 11)"
  | .nulByte => "nul byte found in provided data"

/-- The names that lead from the root to a node. -/
abbrev Location := List String

structure Host where
  nodes : List (Location × Node)
  current : Location
  env : Bindings String

namespace Host

def nodeAt? (h : Host) (l : Location) : Option Node :=
  if l.isEmpty then some .directory
  else (h.nodes.find? (·.1 == l)).map (·.2)

/-- Adds a directory and those above it. -/
def addDirectory (h : Host) (l : Location) : Host :=
  let chain := (List.range (l.length + 1)).map l.take
  let missing := chain.filter fun d => (h.nodeAt? d).isNone
  { h with nodes := h.nodes ++ missing.map fun d => (d, Node.directory) }

/-- Adds a node and the directories above it, in place of an earlier node. -/
def addNode (h : Host) (l : Location) (n : Node) : Host :=
  let h := h.addDirectory l.dropLast
  { h with nodes := (h.nodes.filter (·.1 != l)) ++ [(l, n)] }

/-- Follows pieces from a location. -/
def follow (h : Host) : Location → List String → Except HostError (Location × Node)
  | l, [] =>
    match h.nodeAt? l with
    | some n => .ok (l, n)
    | none => .error .notFound
  | l, piece :: rest =>
    match h.nodeAt? l with
    | none => .error .notFound
    | some .directory =>
      if Path.isIdle piece then h.follow l rest
      else if piece = ".." then h.follow l.dropLast rest
      else h.follow (l ++ [piece]) rest
    | some _ => .error .notDirectory

/-- The location that a path names, whether there is something or not. -/
def place (h : Host) (p : Path) : Location :=
  p.pieces.foldl (fun l piece =>
    if Path.isIdle piece then l else if piece = ".." then l.dropLast else l ++ [piece])
    (if p.isAbsolute then [] else h.current)

def locate (h : Host) (p : Path) : Except HostError (Location × Node) :=
  if p.text = "" then .error .notFound
  else h.follow (if p.isAbsolute then [] else h.current) p.pieces

def isDirectory (h : Host) (p : Path) : Bool :=
  match h.locate p with
  | .ok (_, .directory) => true
  | _ => false

def isFile (h : Host) (p : Path) : Bool :=
  match h.locate p with
  | .ok (_, .file _ _) => true
  | .ok (_, .tool _) => true
  | _ => false

/-- The text of a file, if there is such a file and its bytes are UTF-8. -/
def readText? (h : Host) (p : Path) : Option String :=
  match h.locate p with
  | .ok (_, .file contents _) => String.fromUTF8? contents
  | _ => none

/-- The names in a directory, in ascending order. -/
def entries (h : Host) (l : Location) : List String :=
  let names := h.nodes.filterMap fun (at', _) => if at'.dropLast = l then at'.getLast? else none
  names.mergeSort fun a b => !(b < a)

/-- Why a file cannot be opened for writing. -/
inductive OpenError where
  | noDirectory
  | isDirectory
deriving DecidableEq, Repr

/-- The location for a file that is not there yet. -/
def newLocation (h : Host) (p : Path) : Except OpenError Location :=
  let start := if p.isAbsolute then [] else h.current
  match p.pieces.reverse with
  | [] => .error .noDirectory
  | [""] => .error .noDirectory
  | name :: above =>
    let above := if name = "" then above.tail else above
    match h.follow start above.reverse with
    | .ok (l, .directory) => if Path.isIdle name then .error .isDirectory else .ok (l ++ [name])
    | _ => .error .noDirectory

/-- Opens a file for writing and makes it if need be. What it holds is kept or thrown away. There is
no location for a device that keeps nothing. -/
def openToWrite (h : Host) (p : Path) (keep : Bool) : Except OpenError (Host × Option Location) :=
  match h.locate p with
  | .ok (_, .directory) => .error .isDirectory
  | .ok (l, .file contents executable) =>
    .ok (h.addNode l (.file (if keep then contents else .empty) executable), some l)
  | .ok _ => .ok (h, none)
  | .error _ =>
    match h.newLocation p with
    | .ok l => .ok (h.addNode l (.file .empty false), some l)
    | .error e => .error e

/-- Adds text at the end of a file. -/
def appendText (h : Host) (l : Location) (text : String) : Host :=
  match h.nodeAt? l with
  | some (.file contents executable) => h.addNode l (.file (contents ++ text.toUTF8) executable)
  | _ => h

def ofLocation (l : Location) : Path := ⟨"/" ++ "/".intercalate l⟩

/-- The current directory as an absolute path. -/
def currentPath (h : Host) : Path := ofLocation h.current

/-- Where programs are looked for on a machine with no other wishes. -/
def standardPath : String := "/usr/local/sbin:/usr/local/bin:/usr/sbin:/usr/bin:/sbin:/bin"

/-- A machine with nothing on it but the tools that are always there. -/
def bare : Host :=
  let tools := [("sh", Tool.shell), ("dash", .shell), ("bash", .shell), ("true", .succeed),
    ("false", .refuse)]
  let h : Host := ⟨[], [], Bindings.empty.insert "PATH" standardPath⟩
  let h := [["usr", "local", "sbin"], ["usr", "local", "bin"], ["usr", "sbin"], ["sbin"],
    ["tmp"]].foldl addDirectory h
  let h := h.addNode ["dev", "null"] .sink
  tools.foldl (fun h t =>
    (h.addNode ["usr", "bin", t.1] (.tool t.2)).addNode ["bin", t.1] (.tool t.2)) h

end Host

end TaskRunner
