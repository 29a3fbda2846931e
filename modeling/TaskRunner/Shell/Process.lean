import TaskRunner.Run.Basic
import TaskRunner.Shell.Choice
import TaskRunner.Shell.Evaluation

/-!
# Starting programs

A program is named by a path, or by a name that is looked up in the directories of `PATH`. It is a
tool of the machine, or a file that can be run and says in its first line which program it is for.
Programs may start one another up to a fixed depth.
-/
namespace TaskRunner

namespace Host

/-- Where programs are looked for if the environment does not say so. -/
def searchPath (h : Host) : List String :=
  (Path.splitAt ':' ((h.env.get? "PATH").getD "/bin:/usr/bin").toList).map String.ofList

/-- A program at a path: a tool or a file that can be run. -/
def programAt (h : Host) (p : Path) : Except HostError Node :=
  match h.locate p with
  | .ok (_, .tool t) => .ok (.tool t)
  | .ok (_, .file contents true) => .ok (.file contents true)
  | .ok _ => .error .denied
  | .error e => .error e

/-- The first program of that name in a list of directories, and its path. One that may not be run
is passed over, but decides what is said if there is no other. -/
def programIn (h : Host) (name : String) : List String → HostError → Except HostError (Path × Node)
  | [], e => .error e
  | d :: rest, e =>
    let p := Path.join ⟨d⟩ ⟨name⟩
    match h.programAt p with
    | .ok n => .ok (p, n)
    | .error .denied => h.programIn name rest .denied
    | .error _ => h.programIn name rest e

/-- The paths at which a program is looked for. -/
def programPaths (h : Host) (name : String) : List Path :=
  if name.contains '/' then [⟨name⟩] else h.searchPath.map fun d => Path.join ⟨d⟩ ⟨name⟩

def findProgram (h : Host) (name : String) : Except HostError (Path × Node) :=
  if name = "" then .error .notFound
  else if name.contains '/' then
    match h.programAt ⟨name⟩ with
    | .ok n => .ok (⟨name⟩, n)
    | .error e => .error e
  else h.programIn name h.searchPath .notFound

/-- The program and the option, if any, in the first line of a file that begins with `#!`. -/
def interpreter? (text : String) : Option (String × List String) :=
  match text.toList with
  | '#' :: '!' :: s =>
    let line := s.takeWhile (· != '\n')
    let line := (line.dropWhile Grammar.isGap).reverse.dropWhile Grammar.isGap |>.reverse
    let program := line.takeWhile (!Grammar.isGap ·)
    let option := (line.dropWhile (!Grammar.isGap ·)).dropWhile Grammar.isGap
    some (String.ofList program, if option.isEmpty then [] else [String.ofList option])
  | _ => none

/-- The shell as a program: it takes a command after `-c`, or the path of a script. -/
def runShell (start : Shell.Start) (h : Host) (name : String) (args : List String) :
    Ending × Host × Output :=
  let refuse (reason : String) : Ending × Host × Output :=
    (.exited 2, h, ⟨"", name ++ ": 0: " ++ reason ++ "\n"⟩)
  match args with
  | "-c" :: command :: name' :: rest => Shell.run start h name' rest command
  | ["-c", command] => Shell.run start h name [] command
  | [] => (.exited 0, h, .none)
  | script :: rest =>
    if script.startsWith "-" then refuse ("Illegal option " ++ script)
    else
      match h.readText? ⟨script⟩ with
      | some text => Shell.run start h script rest text
      | none => refuse ("cannot open " ++ script ++ ": No such file")

/-- As a shell starts programs: a file that does not say which program it is for is for the shell. -/
def orAsScript (start : Shell.Start) : Shell.Start := fun h name args =>
  match start h name args, h.findProgram name with
  | .error .notExecutable, .ok (path, _) => start h "/bin/sh" (path.text :: args)
  | result, _ => result

/-- Starts a program that may itself start others, at most `depth` deep. -/
def start : Nat → Shell.Start
  | 0, _, _, _ => .error .tooDeep
  | depth + 1, h, name, args =>
    if (name :: args).any (·.contains '\x00') then .error .nulByte
    else
      match h.findProgram name with
      | .error e => .error e
      | .ok (_, .tool .shell) => .ok (runShell (orAsScript (start depth)) h name args)
      | .ok (_, .tool .succeed) => .ok (.exited 0, h, .none)
      | .ok (_, .tool .refuse) => .ok (.exited 1, h, .none)
      | .ok (path, .file contents _) =>
        match (String.fromUTF8? contents).bind interpreter? with
        | none => .error .notExecutable
        | some (program, option) => start depth h program (option ++ path.text :: args)
      | .ok _ => .error .denied

/-- How deep programs may start one another. -/
def depth : Nat := 100

/-- `python3` if there is such a program on the search path, and otherwise `python`. -/
def pythonProgram (h : Host) : String :=
  match h.env.get? "PATH", h.findProgram "python3" with
  | some _, .ok _ => "python3"
  | _, _ => "python"

end Host

/-- A machine and what was printed so far. -/
structure Session where
  host : Host
  output : Output

/-- Starts commands on the machine of a session. What they leave in files is there for the next
ones. -/
def Session.runner (choice : ShellChoice) : Starter Session := fun via command s =>
  let (program, option) :=
    match via with
    | .shell => (choice.program, choice.option)
    | .python => (s.host.pythonProgram, "-c")
  match Host.start Host.depth s.host program [option, command] with
  | .ok (ending, h, output) =>
    (.ok ending.status, ⟨{ s.host with nodes := h.nodes }, s.output.append output⟩)
  | .error e => (.error e.message, s)

end TaskRunner
