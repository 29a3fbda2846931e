import TaskRunner.Shell.Condition
import TaskRunner.Shell.State

/-!
# Commands that the shell has of its own

`echo`, `test`, `kill`, `exit` and the small commands that go with loops and functions. Each takes
its arguments and gives its status.
-/
namespace TaskRunner.Shell

namespace Builtin

/-- A number as an argument, if it is one that fits in 31 bits. -/
def number? (s : String) : Option Nat :=
  if !s.isEmpty && s.toList.all Grammar.isDigit && Number.ofDigits s.toList < 1 <<< 31 then
    some (Number.ofDigits s.toList)
  else none

def illegalNumber (s : String) : String := "Illegal number: " ++ s

/-! ## Echo -/

def octal? (c : Char) : Option Nat :=
  if '0' ≤ c ∧ c ≤ '7' then some (c.toNat - '0'.toNat) else none

/-- What an escape of one letter stands for. -/
def escape? : Char → Option Char
  | 'a' => some '\x07'
  | 'b' => some '\x08'
  | 'e' => some '\x1b'
  | 'f' => some '\x0c'
  | 'n' => some '\n'
  | 'r' => some '\r'
  | 't' => some '\t'
  | 'v' => some '\x0b'
  | '\\' => some '\\'
  | _ => none

/-- Where `echo` is in its text. -/
inductive EchoMode where
  | plain
  | escaped
  /-- In the digits of a byte, with as many more allowed. -/
  | octal (value : Nat) (more : Nat)
  /-- Behind `\c`, where nothing is printed any more. -/
  | ended
deriving DecidableEq, Repr

/-- The printed text in reverse. -/
structure EchoState where
  mode : EchoMode
  printed : List Char
deriving DecidableEq, Repr

namespace EchoState

def put (s : EchoState) (c : Char) : EchoState := ⟨.plain, c :: s.printed⟩

def plainStep (s : EchoState) (c : Char) : EchoState :=
  if c = '\\' then ⟨.escaped, s.printed⟩ else s.put c

def putByte (s : EchoState) (n : Nat) : EchoState := s.put (Char.ofNat (n % 256))

def step (s : EchoState) (c : Char) : EchoState :=
  match s.mode with
  | .plain => s.plainStep c
  | .escaped =>
    if c = 'c' then ⟨.ended, s.printed⟩
    else
      match escape? c, octal? c with
      | some e, _ => s.put e
      | none, some 0 => ⟨.octal 0 3, s.printed⟩
      | none, some d => ⟨.octal d 2, s.printed⟩
      | none, none => (s.put '\\').put c
  | .octal value more =>
    match octal? c, more with
    | some d, 1 => s.putByte (8 * value + d)
    | some d, more + 1 => ⟨.octal (8 * value + d) more, s.printed⟩
    | _, _ => (s.putByte value).plainStep c
  | .ended => s

/-- The printed text with what was begun. -/
def close (s : EchoState) : EchoState :=
  match s.mode with
  | .escaped => s.put '\\'
  | .octal value _ => s.putByte value
  | _ => s

end EchoState

/-- The text that `echo` prints: its arguments with blanks between them and escapes replaced, and a
line end unless `-n` comes first. -/
def echoText (args : List String) : String :=
  let (bare, args) :=
    match args with
    | "-n" :: rest => (true, rest)
    | _ => (false, args)
  let s := ((" ".intercalate args).toList.foldl EchoState.step ⟨.plain, []⟩).close
  let text := String.ofList s.printed.reverse
  if bare || s.mode = .ended then text else text ++ "\n"

/-- Prints the output of a command, or complains that it cannot be written. -/
def print (name text : String) : Exec Nat := do
  if ← Exec.write 1 text then return 0
  Exec.complain (name ++ ": " ++ name ++ ": I/O error")
  return 1

def echo (args : List String) : Exec Nat := print "echo" (echoText args)

/-! ## Test -/

def test (name : String) (args : List String) : Exec Nat := do
  match Condition.holds (← get).host args with
  | .ok true => return 0
  | .ok false => return 1
  | .error e =>
    Exec.complain (name ++ ": " ++ e.message)
    return 2

/-- `test` in square brackets. -/
def bracket (args : List String) : Exec Nat := do
  if args.getLast? = some "]" then test "[" args.dropLast
  else
    Exec.complain "[: missing ]"
    return 2

/-! ## Kill -/

/-- The names of the signals, in order of number. -/
def signals : List String :=
  ["0", "HUP", "INT", "QUIT", "ILL", "TRAP", "ABRT", "BUS", "FPE", "KILL", "USR1", "SEGV", "USR2",
   "PIPE", "ALRM", "TERM", "16", "CHLD", "CONT", "STOP", "TSTP", "TTIN", "TTOU", "URG", "XCPU",
   "XFSZ", "VTALRM", "PROF", "WINCH", "IO", "PWR", "SYS", "32", "33", "RTMIN"] ++
  (List.range 15).map (fun n => "RTMIN+" ++ toString (n + 1)) ++
  (List.range 14).map (fun n => "RTMAX-" ++ toString (14 - n)) ++ ["RTMAX"]

/-- A signal by number or by name, in capitals or not. -/
def signal? (name : String) : Option Nat :=
  match number? name with
  | some n => if n < signals.length then some n else none
  | none =>
    match signals.findIdx? (· == name.toUpper) with
    | some 0 => none
    | found => found

/-- Signals that a process lives through: none at all, and those that are ignored unless asked for. -/
def isHarmless (signal : Nat) : Bool := [0, 17, 18, 23, 28].contains signal

def killUsage : String :=
  "Usage: kill [-s sigspec | -signum | -sigspec] [pid | job]... or\nkill -l [exitstatus]"

/-- What `kill` is asked to do. -/
structure KillRequest where
  list : Bool
  signal : Option Nat
  operands : List String
deriving DecidableEq, Repr

/-- Reads the letters of one option word. The value of an `s` is the rest of the word, or the next. -/
def killLetters (r : KillRequest) : List Char → List String → Except String KillRequest
  | [], rest => .ok { r with operands := rest }
  | 'l' :: cs, rest => killLetters { r with list := true } cs rest
  | 's' :: cs, rest =>
    let (value, rest) :=
      match cs, rest with
      | [], w :: rest => (some w, rest)
      | [], [] => (none, [])
      | cs, rest => (some (String.ofList cs), rest)
    match value with
    | none => .error "No arg for -s option"
    | some name =>
      match signal? name with
      | some n => .ok { r with signal := some n, operands := rest }
      | none => .error ("invalid signal number or name: " ++ name)
  | c :: _, _ => .error ("Illegal option -" ++ String.singleton c)

/-- Reads the options, at most `n` of them. -/
def killOptions : Nat → KillRequest → Except String KillRequest
  | 0, r => .ok r
  | n + 1, r =>
    match r.operands with
    | [] => .ok r
    | w :: rest =>
      match w.toList with
      | ['-', '-'] => .ok { r with operands := rest }
      | '-' :: c :: cs => do killOptions n (← killLetters r (c :: cs) rest)
      | _ => .ok r

def killRequest (args : List String) : Except String KillRequest :=
  match args with
  | [] => .error killUsage
  | w :: rest =>
    match w.toList with
    | '-' :: name =>
      match signal? (String.ofList name) with
      | some n => .ok ⟨false, some n, rest⟩
      | none => killOptions args.length ⟨false, none, args⟩
    | _ => .ok ⟨false, none, args⟩

/-- The shell gets a signal. If the command runs apart, it learns of that later. -/
def deliver (signal : Nat) : Exec Unit := do
  let s ← get
  if isHarmless signal then pure ()
  else if s.apart = 0 then throw (.ending (.killed signal))
  else set { s with doomed := s.doomed.or (some signal) }

def killEach (signal status : Nat) : List String → Exec Nat
  | [] => pure status
  | w :: rest => do
    let digits := if w.startsWith "-" then String.ofList w.toList.tail else w
    if w.startsWith "%" then
      Exec.complain ("kill: No such job: " ++ w)
      return 2
    else if (number? digits).isNone then
      Exec.complain ("kill: " ++ illegalNumber digits)
      return 2
    else if w = processNumber then
      deliver signal
      killEach signal status rest
    else
      Exec.complain "kill: No such process\n"
      killEach signal 1 rest

/-- Prints the name of a signal, by its number or by the status of a process that died of it. -/
def nameSignal (w : String) : Exec Nat := do
  let refuse (message : String) : Exec Nat := do
    Exec.complain ("kill: " ++ message)
    return 2
  match number? w with
  | none => refuse (illegalNumber w)
  | some n =>
    let n := if n > 128 then n - 128 else n
    match signals[n]? with
    | some name =>
      if n = 0 then refuse ("invalid signal number or exit status: " ++ w)
      else print "kill" (name ++ "\n")
    | none => refuse ("invalid signal number or exit status: " ++ w)

def kill (args : List String) : Exec Nat := do
  match killRequest args with
  | .error message =>
    Exec.complain ("kill: " ++ message)
    return 2
  | .ok r =>
    match r.list, r.operands with
    | true, [] => print "kill" (String.join (signals.map (· ++ "\n")))
    | true, w :: _ => nameSignal w
    | false, [] =>
      Exec.complain ("kill: " ++ killUsage)
      return 2
    | false, ws => killEach (r.signal.getD 15) 0 ws

/-! ## Commands that lead out of others -/

/-- The code of an `exit`, which is taken modulo 256. -/
def exit (args : List String) : Exec Nat := do
  match args with
  | [] => throw (.ending (.exited (← get).status))
  | code :: _ =>
    match number? code with
    | some n => throw (.ending (.exited (n % 256)))
    | none => Exec.fail ("exit: " ++ illegalNumber code)

def returnFrom (args : List String) : Exec Nat := do
  match args with
  | [] => throw .returning
  | code :: _ =>
    match number? code with
    | some n =>
      Exec.setStatus (n % 256)
      throw .returning
    | none => Exec.fail ("return: " ++ illegalNumber code)

/-- `break` and `continue` lead out of a number of loops, one if none is given. -/
def outOf (name : String) (stop : Nat → Stop) (args : List String) : Exec Nat := do
  let count := (args.head?.map number?).getD (some 1)
  match count with
  | none | some 0 => Exec.fail (name ++ ": " ++ illegalNumber (args.headD ""))
  | some n =>
    let loops := (← get).loops
    Exec.setStatus 0
    if loops = 0 then return 0 else throw (stop (min n loops))

/-- Commands whose failures end the shell, and whose assignments stay. -/
def special? : String → Option (List String → Exec Nat)
  | ":" => some fun _ => pure 0
  | "exit" => some exit
  | "return" => some returnFrom
  | "break" => some (outOf "break" .leaving)
  | "continue" => some (outOf "continue" .again)
  | _ => none

def regular? : String → Option (List String → Exec Nat)
  | "echo" => some echo
  | "test" => some (test "test")
  | "[" => some bracket
  | "true" => some fun _ => pure 0
  | "false" => some fun _ => pure 1
  | "kill" => some kill
  | _ => none

end Builtin

end TaskRunner.Shell
