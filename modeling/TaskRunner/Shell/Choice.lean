import TaskRunner.Host.Path
import TaskRunner.Bindings

/-!
# The shell that is asked for

Which program runs the commands of a script, and the option by which it takes a command. The option
goes by the name of the program, whatever directory it is in.
-/
namespace TaskRunner

structure ShellChoice where
  program : String
  option : String
deriving DecidableEq, Repr

namespace ShellChoice

def lowerAscii (c : Char) : Char :=
  if 'A' ≤ c ∧ c ≤ 'Z' then Char.ofNat (c.toNat + 32) else c

/-- The name that decides: the file stem in lower case, or the whole text if it has none. -/
def deciding (program : String) : String :=
  String.ofList (((Path.stem? ⟨program⟩).getD program).toList.map lowerAscii)

def optionOf (program : String) : String :=
  match deciding program with
  | "pwsh" => "-Command"
  | "powershell" => "-Command"
  | "cmd" => "/C"
  | _ => "-c"

def ofProgram (program : String) : ShellChoice := ⟨program, optionOf program⟩

/-- The variable that names another shell than `sh`. -/
def ofEnv (env : Bindings String) : ShellChoice :=
  ofProgram ((env.get? "DOIT_SHELL").getD "sh")

end ShellChoice

end TaskRunner
