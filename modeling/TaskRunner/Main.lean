import TaskRunner.Cli.Program

/-!
# The program

Takes down what the run can see of the machine, runs, prints, and ends with the exit code.
-/
namespace TaskRunner

/-- The variables that make a difference. -/
def relevantVariables : List String :=
  ["HOME", "USERPROFILE", "HOMEDRIVE", "HOMEPATH", "PATH", "DOIT_SHELL"]

/-- The environment, as far as it makes a difference. -/
def readEnvironment : IO (Bindings String) :=
  relevantVariables.foldlM (fun env name => do
    match ← IO.getEnv name with
    | some value => return env.insert name value
    | none => return env) Bindings.empty

/-- The bytes of a file. -/
def readBytes? (path : String) : IO (Option ByteArray) := do
  try
    return some (← IO.FS.readBinFile path)
  catch _ => return none

/-- The machine, as far as the run looks at it. A directory counts once a file was found in it. -/
def readHost (words : List String) : IO Host := do
  let here := (← IO.currentDir).toString
  let env ← readEnvironment
  let bare := Host.bare
  let current := bare.place ⟨here⟩
  let h : Host := { bare.addDirectory current with current := current, env := env }
  let unknown := (Cli.visited h words).filter fun path => (h.nodeAt? (h.place path)).isNone
  unknown.foldlM (fun h path => do
    match ← readBytes? path.text with
    | some bytes => return h.addNode (h.place path) (.file bytes true)
    | none => return h) h

end TaskRunner

open TaskRunner

def main (words : List String) : IO UInt32 := do
  let outcome := Cli.run (← readHost words) words
  (← IO.getStdout).putStr outcome.output.out
  (← IO.getStderr).putStr outcome.output.err
  return UInt32.ofNat outcome.code
