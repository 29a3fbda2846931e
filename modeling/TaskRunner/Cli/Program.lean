import TaskRunner.Cli.Options
import TaskRunner.Host.Search
import TaskRunner.Inspect.Report
import TaskRunner.Registry.Load
import TaskRunner.Script.Reader
import TaskRunner.Script.Tree
import TaskRunner.Shell.Process
import TaskRunner.Usage

/-!
# The command line program

From the words of the command line and a machine to what is printed and the exit code. The script is
found and read first; what is asked for decides how far it is taken: shown as a tree, reported as
JSON, described, or one of its targets is run.
-/
namespace TaskRunner.Cli

/-- What the program leaves behind. -/
structure Outcome where
  code : Nat
  output : Output
deriving DecidableEq, Repr

/-- The exit code of a status: its remainder modulo 256. -/
def exitCode (status : Int) : Nat := (status % 256).toNat

namespace Outcome

def success (out : String) : Outcome := ⟨0, ⟨out, ""⟩⟩

/-- Fails with a message after what was printed so far. -/
def failureAfter (printed : Output) (message : String) : Outcome :=
  ⟨1, printed.append ⟨"", message ++ "\n"⟩⟩

def failure (message : String) : Outcome := failureAfter .none message

/-- What a run leaves behind by the way it has ended, after what was printed so far. -/
def ofResult (printed : Output) : Except RunError Int → Outcome
  | .ok status => ⟨exitCode status, printed⟩
  | .error (.unknownTarget name) => ⟨1, printed.append ⟨"", Usage.invalidTarget false name⟩⟩
  | .error e => failureAfter printed e.message

end Outcome

def version : String := "doit 0.2.0\n"

def noScript : String := "Error: No do.it file found. Create ./do.it or pass --file <PATH>."

/-- What `--help` prints where there is no script to describe. -/
def help : String :=
  "Run build targets defined in a do.it script\n\n" ++ usageLine ++
  "\nArguments:\n" ++
  "  [TARGET]   Target to run\n" ++
  "  [ARGS]...  Arguments passed to the target as $0, $1, ...\n" ++
  "\nOptions:\n" ++
  "  -f, --file <PATH>  Script file, or a directory containing do.it\n" ++
  "      --nodes        Print the parsed script tree and exit\n" ++
  "      --inspect      Print targets and their variables as JSON and exit\n" ++
  "  -h, --help         Print usage and the targets defined in the script\n" ++
  "  -V, --version      Print version\n"

/-- Runs a target on the machine. -/
def runTarget (h : Host) (r : Registry) (name : String) (args : List String) : Outcome :=
  let run := r.dispatch (Session.runner (.ofEnv h.env)).runner name args ⟨h, .none⟩
  .ofResult run.state.output run.result

/-- Does what the options ask for with a script that could be loaded. -/
def withRegistry (h : Host) (o : Options) (r : Registry) : Outcome :=
  if o.inspect then .success (r.inspect ++ "\n")
  else if o.help then .success (r.usage false)
  else
    match o.target with
    | none => ⟨1, ⟨r.usage false, ""⟩⟩
    | some name => runTarget h r name o.args

/-- Does what the options ask for with the text of a script. -/
def withSource (h : Host) (o : Options) (path : Path) (source : String) : Outcome :=
  match Script.parse source (some path.text) with
  | .error d => .failure d.render
  | .ok script =>
    if o.nodes then .success script.tree
    else
      match Registry.load script with
      | .error e => .failure ("Error in " ++ path.text ++ ": " ++ e.message)
      | .ok r => withRegistry h o r

def run (h : Host) (words : List String) : Outcome :=
  match Request.ofWords words with
  | .error e => ⟨2, ⟨"", e.message⟩⟩
  | .ok .version => .success version
  | .ok (.run o) =>
    match Search.load h o.file with
    | .script path source => withSource h o path source
    | _ => if o.help then .success help else .failure noScript

/-- The paths that a run looks at before it starts a command, and those where the shell and Python may
be. -/
def visited (h : Host) (words : List String) : List Path :=
  let custom :=
    match Request.ofWords words with
    | .ok (.run o) => o.file
    | _ => none
  let programs := [(ShellChoice.ofEnv h.env).program, "python3", "python"]
  Search.candidates h custom ++ programs.flatMap h.programPaths

end TaskRunner.Cli
