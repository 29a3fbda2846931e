import TaskRunner.Shell.Command

/-!
# Reading commands

Commands are read off the front of a row of tokens, line by line: what a line begins is read to its
end before any of it is run. Every call either takes a token or hands on to a call that does, so a
bound on the depth that grows with the number of tokens is never reached.
-/
namespace TaskRunner.Shell

/-- Why tokens make no command, with the number of the line to blame. -/
structure Refusal where
  line : Nat
  reason : String
deriving DecidableEq, Repr

def Refusal.message (r : Refusal) : String := "Syntax error: " ++ r.reason

/-- What is read is handed on together with the tokens behind it. -/
abbrev Reading := Except Refusal

namespace Reader

def quoted (s : String) : String := "\"" ++ s ++ "\""

/-- What a token is called where it does not belong. -/
def describe (keywords : Bool) : Token → String
  | .word w =>
    match keyword? w with
    | some k => if keywords then quoted k else "word"
    | none => "word"
  | .lineEnd => "newline"
  | .operator o => quoted o.text
  | .redirect _ _ => "redirection"
  | .fault f => f.message
  | .finish => "end of file"

/-- The first token does not belong here. -/
def refuse (keywords : Bool) (expected : Option String) : Tokens → Refusal
  | [] => ⟨1, "end of file unexpected"⟩
  | (line, .fault f) :: _ => ⟨line, f.message⟩
  | (line, t) :: _ =>
    let hint :=
      match expected with
      | some e => " (expecting " ++ e ++ ")"
      | none => ""
    ⟨line, describe keywords t ++ " unexpected" ++ hint⟩

def skipLines : Tokens → Tokens
  | (_, .lineEnd) :: ts => skipLines ts
  | ts => ts

/-- The keyword at the front. -/
def frontKeyword? : Tokens → Option String
  | (_, .word w) :: _ => keyword? w
  | _ => none

def frontOperator? : Tokens → Option Operator
  | (_, .operator o) :: _ => some o
  | _ => none

/-- Takes a keyword that has to follow. -/
def expect (k : String) (ts : Tokens) : Reading Tokens :=
  if frontKeyword? ts = some k then .ok ts.tail else .error (refuse true (some (quoted k)) ts)

def expectClosing (ts : Tokens) : Reading Tokens :=
  if frontOperator? ts = some .closing then .ok ts.tail
  else .error (refuse true (some (quoted ")")) ts)

/-- Whether a list of commands ends here. -/
def endsList (ts : Tokens) : Bool :=
  match frontOperator? ts, frontKeyword? ts with
  | some .closing, _ | some .caseEnd, _ => true
  | _, some k => ["then", "elif", "else", "fi", "do", "done", "esac", "\x7d"].contains k
  | _, _ => false

/-- The word behind a redirection. -/
def redirectTarget : Nat × Token → Reading Word
  | (_, .word w) => .ok w
  | t => .error (refuse false none [t])

/-- The redirections at the front. -/
def redirects : Tokens → Reading (List Redirect × Tokens)
  | (_, .redirect stream d) :: t :: ts => do
    let w ← redirectTarget t
    let (rs, ts) ← redirects ts
    return (⟨stream, d, w⟩ :: rs, ts)
  | ts => .ok ([], ts)

/-- The words at the front. -/
def words : Tokens → List Word × Tokens
  | (_, .word w) :: ts =>
    let (ws, rest) := words ts
    (w :: ws, rest)
  | ts => ([], ts)

/-- The patterns of a case, divided by bars, up to the closing bracket. What is no word stands for a
pattern too, until it turns out that no bracket follows. -/
def patterns : Tokens → Reading (List Word × Tokens)
  | [] => .error (refuse false (some (quoted ")")) [])
  | (line, t) :: ts =>
    match t, ts with
    | .fault _, _ | .finish, _ => .error (refuse false (some (quoted ")")) [(line, t)])
    | .word w, (_, .operator .bar) :: ts => do
      let (ws, ts) ← patterns ts
      return (w :: ws, ts)
    | t, (_, .operator .closing) :: ts =>
      match t with
      | .word w => .ok ([w], ts)
      | _ => .ok ([[]], ts)
    | _, ts => .error (refuse false (some (quoted ")")) ts)

/-- The words and redirections of a simple command. Assignments come before the first word. -/
def simpleParts : Bool → Tokens →
    Reading ((List (String × Word) × List Word × List Redirect) × Tokens)
  | assigning, (_, .redirect stream d) :: t :: ts => do
    let w ← redirectTarget t
    let ((as, ws, rs), ts) ← simpleParts assigning ts
    return ((as, ws, ⟨stream, d, w⟩ :: rs), ts)
  | assigning, (_, .word w) :: ts =>
    match if assigning then assignment? w else none with
    | some a => do
      let ((as, ws, rs), ts) ← simpleParts assigning ts
      return ((a :: as, ws, rs), ts)
    | none => do
      let ((as, ws, rs), ts) ← simpleParts false ts
      return ((as, w :: ws, rs), ts)
  | _, ts => .ok (([], [], []), ts)

/-- How a list of commands is read. -/
inductive ListKind where
  /-- Up to the end of the line. -/
  | line
  /-- At least one command, over any number of lines. -/
  | block
  /-- Any number of commands, over any number of lines. -/
  | optional
deriving DecidableEq, Repr

/-- A command behind those before it. -/
def andThen (before : Option Command) (c : Command) : Command :=
  match before with
  | some b => .sequence b c
  | none => c

/-- Names that cannot be those of functions, because the shell needs them. -/
def isReserved (name : String) : Bool := ["break", "continue", "exit", "return", ":"].contains name

mutual

/-- The commands of a list, behind those in `before`. -/
def list : Nat → ListKind → Option Command → Tokens → Reading (Command × Tokens)
  | 0, _, _, ts => .error (refuse true none ts)
  | n + 1, kind, before, ts => do
    let ts := if kind = .line then ts else skipLines ts
    let done : Command := before.getD .nothing
    match ts with
    | [] => return (done, ts)
    | (_, .lineEnd) :: _ | (_, .finish) :: _ => return (done, ts)
    | _ =>
      if kind ≠ .line && (before.isSome || kind = .optional) && endsList ts then return (done, ts)
      let (c, ts) ← andOr n ts
      match ts with
      | (_, .operator .background) :: rest =>
        list n kind (some (andThen before (.background c))) rest
      | (_, .operator .semicolon) :: rest => list n kind (some (andThen before c)) rest
      | (_, .lineEnd) :: _ => list n kind (some (andThen before c)) ts
      | (_, .finish) :: _ => return (andThen before c, ts)
      | (_, .fault _) :: _ => throw (refuse true none ts)
      | _ => if kind = .line then throw (refuse true none ts) else return (andThen before c, ts)
termination_by structural n => n

def andOr : Nat → Tokens → Reading (Command × Tokens)
  | 0, ts => .error (refuse true none ts)
  | n + 1, ts => do
    let (c, ts) ← pipeline n ts
    andOrRest n c ts
termination_by structural n => n

def andOrRest : Nat → Command → Tokens → Reading (Command × Tokens)
  | 0, _, ts => .error (refuse true none ts)
  | n + 1, first, ts =>
    match frontOperator? ts with
    | some .andIf => do
      let (c, ts) ← pipeline n (skipLines ts.tail)
      andOrRest n (.both first c) ts
    | some .orIf => do
      let (c, ts) ← pipeline n (skipLines ts.tail)
      andOrRest n (.either first c) ts
    | _ => .ok (first, ts)
termination_by structural n => n

def pipeline : Nat → Tokens → Reading (Command × Tokens)
  | 0, ts => .error (refuse true none ts)
  | n + 1, ts => do
    let negated := frontKeyword? ts = some "!"
    let (c, ts) ← command n (if negated then ts.tail else ts)
    let (parts, ts) ← pipelineRest n ts
    let whole : Command := if parts.isEmpty then c else .pipeline (c :: parts)
    return (if negated then .negation whole else whole, ts)
termination_by structural n => n

def pipelineRest : Nat → Tokens → Reading (List Command × Tokens)
  | 0, ts => .error (refuse true none ts)
  | n + 1, ts =>
    match frontOperator? ts with
    | some .bar => do
      let (c, ts) ← command n (skipLines ts.tail)
      let (cs, ts) ← pipelineRest n ts
      return (c :: cs, ts)
    | _ => .ok ([], ts)
termination_by structural n => n

def command : Nat → Tokens → Reading (Command × Tokens)
  | 0, ts => .error (refuse true none ts)
  | n + 1, ts =>
    match ts with
    | (line, .operator .opening) :: rest => do
      let (c, ts) ← list n .block none rest
      let ts ← expectClosing ts
      checkedRedirects n line (.apart c) ts
    | (line, .redirect _ _) :: _ => simple n line ts
    | (line, .word w) :: rest =>
      match keyword? w with
      | none => simple n line ts
      | some "\x7b" => do
        let (c, ts) ← list n .block none rest
        let ts ← expect "\x7d" ts
        checkedRedirects n line c ts
      | some "if" => do
        let (c, ts) ← branches n rest
        let ts ← expect "fi" ts
        checkedRedirects n line c ts
      | some "while" => loop n line true rest
      | some "until" => loop n line false rest
      | some "for" => each n line rest
      | some "case" => select n line rest
      | some _ => .error (refuse true none ts)
    | _ => .error (refuse true none ts)
termination_by structural n => n

/-- The condition and the branches of a choice, up to its end. -/
def branches : Nat → Tokens → Reading (Command × Tokens)
  | 0, ts => .error (refuse true none ts)
  | n + 1, ts => do
    let (condition, ts) ← list n .block none ts
    let ts ← expect "then" ts
    let (yes, ts) ← list n .block none ts
    match frontKeyword? ts with
    | some "elif" =>
      let (no, ts) ← branches n ts.tail
      return (.choice condition yes no, ts)
    | some "else" =>
      let (no, ts) ← list n .block none ts.tail
      return (.choice condition yes no, ts)
    | _ => return (.choice condition yes .nothing, ts)
termination_by structural n => n

def loop : Nat → Nat → Bool → Tokens → Reading (Command × Tokens)
  | 0, _, _, ts => .error (refuse true none ts)
  | n + 1, line, success, ts => do
    let (condition, ts) ← list n .block none ts
    let (body, ts) ← doneBlock n ts
    checkedRedirects n line (.loop success condition body) ts
termination_by structural n => n

/-- The body of a loop between `do` and `done`. -/
def doneBlock : Nat → Tokens → Reading (Command × Tokens)
  | 0, ts => .error (refuse true none ts)
  | n + 1, ts => do
    let ts ← expect "do" ts
    let (body, ts) ← list n .block none ts
    let ts ← expect "done" ts
    return (body, ts)
termination_by structural n => n

def each : Nat → Nat → Tokens → Reading (Command × Tokens)
  | 0, _, ts => .error (refuse true none ts)
  | n + 1, line, ts => do
    let name :=
      match ts with
      | (_, .word w) :: _ => (literal? w).filter isName
      | _ => none
    let some name := name
      | throw (match ts with
          | (_, .fault _) :: _ => refuse true none ts
          | (line, _) :: _ => ⟨line, "Bad for loop variable"⟩
          | [] => refuse true none ts)
    let ts := skipLines ts.tail
    if frontKeyword? ts = some "in" then
      let (ws, ts) := words ts.tail
      checkWords n ws
      match ts with
      | (_, .lineEnd) :: rest | (_, .operator .semicolon) :: rest =>
        let (body, ts) ← doneBlock n (skipLines rest)
        checkedRedirects n line (.each line (String.ofList name) (some ws) body) ts
      | _ => throw (refuse true none ts)
    else
      let ts := if frontOperator? ts = some .semicolon then ts.tail else ts
      let (body, ts) ← doneBlock n (skipLines ts)
      checkedRedirects n line (.each line (String.ofList name) none body) ts
termination_by structural n => n

def select : Nat → Nat → Tokens → Reading (Command × Tokens)
  | 0, _, ts => .error (refuse true none ts)
  | n + 1, line, ts =>
    match ts with
    | (_, .word subject) :: rest => do
      checkWords n [subject]
      let ts ← expect "in" (skipLines rest)
      let (cs, ts) ← cases n ts
      checkedRedirects n line (.select line subject cs) ts
    | _ => .error (refuse false (some "word") ts)
termination_by structural n => n

/-- The cases of a selection and its end. -/
def cases : Nat → Tokens → Reading (List (List Word × Command) × Tokens)
  | 0, ts => .error (refuse true none ts)
  | n + 1, ts => do
    let ts := skipLines ts
    if frontKeyword? ts = some "esac" then return ([], ts.tail)
    let ts := if frontOperator? ts = some .opening then ts.tail else ts
    let (ps, ts) ← patterns ts
    checkWords n ps
    let (body, ts) ← list n .optional none ts
    let ts := skipLines ts
    if frontKeyword? ts = some "esac" then return ([(ps, body)], ts.tail)
    if frontOperator? ts ≠ some .caseEnd then throw (refuse true (some (quoted ";;")) ts)
    let (cs, ts) ← cases n ts.tail
    return ((ps, body) :: cs, ts)
termination_by structural n => n

/-- A simple command or the definition of a function. -/
def simple : Nat → Nat → Tokens → Reading (Command × Tokens)
  | 0, _, ts => .error (refuse true none ts)
  | n + 1, line, ts => do
    let ((assigns, ws, rs), rest) ← simpleParts true ts
    match ws, assigns, rs, frontOperator? rest with
    | [w], [], [], some .opening =>
      let ts := rest.tail
      if frontOperator? ts ≠ some .closing then throw (refuse false (some (quoted ")")) ts)
      match (literal? w).filter fun name => isName name && !isReserved (String.ofList name) with
      | none => throw ⟨line, "Bad function name"⟩
      | some name =>
        let (body, ts) ← command n (skipLines ts.tail)
        return (.define (String.ofList name) body, ts)
    | _, _, _, _ =>
      checkWords n (assigns.map (·.2) ++ ws ++ rs.map (·.target))
      return (.simple line assigns ws rs, rest)
termination_by structural n => n

/-- A command with the redirections behind it. -/
def checkedRedirects : Nat → Nat → Command → Tokens → Reading (Command × Tokens)
  | 0, _, _, ts => .error (refuse true none ts)
  | n + 1, line, c, ts => do
    let (rs, ts) ← redirects ts
    checkWords n (rs.map (·.target))
    return (if rs.isEmpty then c else .redirected line c rs, ts)
termination_by structural n => n

/-- The commands inside of words are read together with the line that they stand in. -/
def checkWords : Nat → List Word → Reading Unit
  | 0, _ => .ok ()
  | n + 1, ws =>
    ws.forM fun w => w.forM fun p =>
      match p with
      | .command _ true line source => do
        let _ ← list n .optional none (tokens line source)
      | .command _ false line source => do
        let (_, ts) ← list n .optional none (tokens line (source ++ [')']))
        let _ ← expectClosing ts
      | _ => .ok ()
termination_by structural n => n

end

/-- More than enough for a text of as many characters. -/
def bound (length : Nat) : Nat := 16 * (length + 1)

end Reader

/-- The commands of the first line of tokens from a text of the given length, and the tokens from
the end of that line on. -/
def readLine (length : Nat) (ts : Tokens) : Reading (Command × Tokens) :=
  Reader.list (Reader.bound length) .line none ts

/-- All the commands of a text. -/
def readText (line : Nat) (text : List Char) : Reading Command :=
  match Reader.list (Reader.bound text.length) .optional none (tokens line text) with
  | .ok (c, _) => .ok c
  | .error e => .error e

end TaskRunner.Shell
