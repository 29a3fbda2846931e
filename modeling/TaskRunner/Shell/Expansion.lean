import TaskRunner.Shell.Formula
import TaskRunner.Shell.Pattern
import TaskRunner.Shell.State

/-!
# Expansion

A word becomes fields when it is used. Its parameters, commands and formulas are replaced by their
values; a value outside of quotes is split where `IFS` says, and a field that is then a pattern
stands for the paths of the files that fit.
-/
namespace TaskRunner.Shell

/-! ## Parameters -/

/-- What is done if a parameter has no value. -/
inductive Remedy where
  | use
  | assign
  | complain
deriving DecidableEq, Repr

/-- What is made of the value of a parameter. -/
inductive Change where
  | value
  | length
  /-- `word` helps out if there is no value, or, with `orEmpty`, if it is empty. -/
  | remedy (r : Remedy) (orEmpty : Bool) (word : List Char)
  /-- `word` takes the place of a value. -/
  | instead (orEmpty : Bool) (word : List Char)
  | trimFront (longest : Bool) (pattern : List Char)
  | trimBack (longest : Bool) (pattern : List Char)
deriving DecidableEq, Repr

structure Reference where
  name : List Char
  change : Change
deriving DecidableEq, Repr

namespace Reference

/-- The name at the front: letters, a number, or a single sign. -/
def nameOf : List Char → List Char × List Char
  | [] => ([], [])
  | c :: s =>
    if Grammar.isLetter c || c == '_' then
      (c :: s.takeWhile Grammar.isNameChar, s.dropWhile Grammar.isNameChar)
    else if Grammar.isDigit c then
      (c :: s.takeWhile Grammar.isDigit, s.dropWhile Grammar.isDigit)
    else if Scanner.isSpecial c then ([c], s)
    else ([], c :: s)

def remedy? (orEmpty : Bool) : List Char → Option Change
  | '-' :: w => some (.remedy .use orEmpty w)
  | '=' :: w => some (.remedy .assign orEmpty w)
  | '?' :: w => some (.remedy .complain orEmpty w)
  | '+' :: w => some (.instead orEmpty w)
  | _ => none

def change? : List Char → Option Change
  | [] => some .value
  | ':' :: s => remedy? true s
  | '#' :: '#' :: w => some (.trimFront true w)
  | '#' :: w => some (.trimFront false w)
  | '%' :: '%' :: w => some (.trimBack true w)
  | '%' :: w => some (.trimBack false w)
  | s => remedy? false s

/-- Reads what stands between the brackets of `${...}`. -/
def ofSource? (source : List Char) : Option Reference :=
  let plain :=
    match nameOf source with
    | ([], _) => none
    | (name, rest) => (change? rest).map (Reference.mk name)
  match source with
  | '#' :: c :: s =>
    match nameOf (c :: s) with
    | ([], _) => plain
    | (name, []) => some ⟨name, .length⟩
    | _ => plain
  | _ => plain

end Reference

namespace State

/-- The characters at which values are split. -/
def dividers (s : State) : List Char := ((s.vars.get? "IFS").getD " \t\n").toList

def joinedArgs (s : State) : String :=
  match s.dividers with
  | d :: _ => (String.singleton d).intercalate s.args
  | [] => "".intercalate s.args

def parameter? (s : State) (name : List Char) : Option String :=
  match name with
  | ['#'] => some (toString s.args.length)
  | ['?'] => some (toString s.status)
  | ['$'] => some processNumber
  | ['!'] => none
  | ['-'] => some ""
  | ['@'] => if s.args.isEmpty then none else some (" ".intercalate s.args)
  | ['*'] => if s.args.isEmpty then none else some s.joinedArgs
  | ['0'] => some s.name
  | _ =>
    if name.all Grammar.isDigit then s.args[Number.ofDigits name - 1]?
    else s.vars.get? (String.ofList name)

end State

/-! ## Fields -/

/-- A part of an expanded word. -/
inductive Atom where
  /-- A character, and whether it may divide fields. -/
  | letter (l : Letter) (dividing : Bool)
  /-- Something in quotes, which makes a field even if it is empty. -/
  | quotes
  /-- The end of a field. -/
  | divide
deriving DecidableEq, Repr

namespace Atom

def ofValue (quoted : Bool) (value : String) : List Atom :=
  let letters := value.toList.map fun c => .letter ⟨quoted, c⟩ (!quoted)
  if quoted then .quotes :: letters else letters

/-- Several values, each in a field of its own. -/
def ofValues (quoted : Bool) (values : List String) : List Atom :=
  (values.map (ofValue quoted)).intersperse [.divide] |>.flatten

def letter? : Atom → Option Letter
  | .letter l _ => some l
  | .quotes => none
  | .divide => some ⟨true, ' '⟩

/-- The letters, in one field. -/
def letters (as : List Atom) : List Letter := as.filterMap letter?

def text (as : List Atom) : String := String.ofList ((letters as).map (·.char))

/-- As part of a value, where each character outside of quotes may divide fields. -/
def dividing : Atom → Atom
  | .letter l _ => .letter l (!l.quoted)
  | a => a

end Atom

/-- Fields that are complete, and the one that is being put together in reverse. `blank` says that
the last field was ended by a blank, so that a divider behind it ends nothing. -/
structure Fields where
  complete : List (List Letter)
  current : Option (List Letter)
  blank : Bool
deriving DecidableEq, Repr

namespace Fields

def isBlank (c : Char) : Bool := c == ' ' || c == '\t' || c == '\n'

def close (f : Fields) (blank : Bool) : Fields :=
  match f.current with
  | none => f
  | some ls => ⟨ls.reverse :: f.complete, none, blank⟩

def step (dividers : List Char) (f : Fields) : Atom → Fields
  | .quotes => { f with current := some (f.current.getD []), blank := false }
  | .divide => f.close false
  | .letter l dividing =>
    if dividing && dividers.contains l.char then
      if isBlank l.char then f.close true
      else if f.current.isSome then f.close false
      else if f.blank then { f with blank := false }
      else { f with complete := [] :: f.complete }
    else { f with current := some (l :: f.current.getD []), blank := false }

def ofAtoms (dividers : List Char) (as : List Atom) : List (List Letter) :=
  ((as.foldl (step dividers) ⟨[], none, false⟩).close false).complete.reverse

end Fields

/-! ## Words -/

/-- A tilde at the start of a word, alone or before a slash, is the home directory. -/
def withHome (vars : Bindings String) (w : Word) : Word :=
  let home : Piece := .param true "HOME".toList
  if (vars.get? "HOME").isNone then w
  else
    match w with
    | [.letter false '~'] => [home]
    | .letter false '~' :: .letter false '/' :: rest => home :: .letter false '/' :: rest
    | _ => w

namespace Piece

def size : Piece → Nat
  | .letter _ _ => 0
  | .quotes => 0
  | .param _ source => source.length
  | .command _ _ _ source => source.length
  | .formula _ source => source.length

end Piece

/-- Words stand inside of words no deeper than the longest piece is long. -/
def depthOf (w : Word) : Nat := w.foldl (fun n p => max n p.size) 0 + 1

/-- The value of a formula, which may assign to variables. -/
def calculate (source : String) : Exec String := do
  let s ← get
  match Formula.read source.toList with
  | .error e => Exec.fail (e.message source)
  | .ok f =>
    match f.value s.vars with
    | .error e => Exec.fail (e.message source)
    | .ok (n, vars) =>
      set { s with vars := vars }
      return toString n

/-- What a piece is replaced by. `substitute` gives the output of the commands in a text that begins
in a line, and `n` bounds the depth of words inside of words. -/
def expandPiece (substitute : Nat → List Char → Exec String) : Nat → Piece → Exec (List Atom)
  | _, .letter quoted c => pure [.letter ⟨quoted, c⟩ false]
  | _, .quotes => pure [.quotes]
  | 0, _ => pure []
  | _ + 1, .command quoted _ line source => do
    return Atom.ofValue quoted (← substitute line source)
  | n + 1, .formula quoted source => do
    let inner ← (wordOf true source).mapM (expandPiece substitute n)
    return Atom.ofValue quoted (← calculate (Atom.text inner.flatten))
  | n + 1, .param quoted source => do
    let some r := Reference.ofSource? source
      | Exec.fail "Bad substitution"
    let s ← get
    let inner (word : List Char) : Exec (List Atom) := do
      return ((← (wordOf quoted word).mapM (expandPiece substitute n)).flatten).map Atom.dividing
    let all : List Atom :=
      match r.name with
      | ['@'] => Atom.ofValues quoted s.args
      | ['*'] => if quoted then Atom.ofValue true s.joinedArgs else Atom.ofValues false s.args
      | _ => Atom.ofValue quoted ((s.parameter? r.name).getD "")
    let given (orEmpty : Bool) : Bool :=
      match s.parameter? r.name with
      | some v => !(orEmpty && v == "")
      | none => false
    match r.change with
    | .value => return all
    | .length =>
      let size := if r.name = ['@'] || r.name = ['*'] then s.args.length
        else ((s.parameter? r.name).getD "").utf8ByteSize
      return Atom.ofValue quoted (toString size)
    | .remedy remedy orEmpty word =>
      if given orEmpty then return all
      match remedy with
      | .use => return (if quoted then [.quotes] else []) ++ (← inner word)
      | .assign =>
        if !isName r.name then Exec.fail (String.ofList r.name ++ ": bad variable name")
        let value := Atom.text (← inner word)
        Exec.assign (String.ofList r.name) value
        return Atom.ofValue quoted value
      | .complain =>
        let text := Atom.text (← inner word)
        let reason := if !word.isEmpty then text
          else "parameter not set" ++ (if orEmpty then " or null" else "")
        Exec.fail (String.ofList r.name ++ ": " ++ reason)
    | .instead orEmpty word =>
      let atoms ← if given orEmpty then inner word else pure []
      return (if quoted then [.quotes] else []) ++ atoms
    | .trimFront longest word =>
      let pattern := (← (wordOf false word).mapM (expandPiece substitute n)).flatten
      let value := ((s.parameter? r.name).getD "").toList
      let left := (Pattern.ofLetters (Atom.letters pattern)).trimFront longest value
      return Atom.ofValue quoted (String.ofList left)
    | .trimBack longest word =>
      let pattern := (← (wordOf false word).mapM (expandPiece substitute n)).flatten
      let value := ((s.parameter? r.name).getD "").toList
      let left := (Pattern.ofLetters (Atom.letters pattern)).trimBack longest value
      return Atom.ofValue quoted (String.ofList left)

def expandAtoms (substitute : Nat → List Char → Exec String) (w : Word) : Exec (List Atom) := do
  let w := withHome (← get).vars w
  return (← w.mapM (expandPiece substitute (depthOf w))).flatten

/-- The fields of a word. -/
def expandFields (substitute : Nat → List Char → Exec String) (w : Word) : Exec (List String) := do
  let atoms ← expandAtoms substitute w
  let s ← get
  return (Fields.ofAtoms s.dividers atoms).flatMap (pathsOf s.host)

/-- A word as one text. -/
def expandText (substitute : Nat → List Char → Exec String) (w : Word) : Exec String := do
  return Atom.text (← expandAtoms substitute w)

/-- A word as a pattern. -/
def expandPattern (substitute : Nat → List Char → Exec String) (w : Word) : Exec Pattern := do
  return .ofLetters (Atom.letters (← expandAtoms substitute w))

end TaskRunner.Shell
