/-!
# Paths

A path is a text whose pieces are divided by slashes. Empty pieces and `.` are idle: they do not
count when paths are compared, except for a `.` at the very start. What is taken off or added keeps
the rest of the text as it is written.
-/
namespace TaskRunner

structure Path where
  text : String
deriving DecidableEq, Repr, Inhabited

namespace Path

/-- The pieces between dividers. There is always at least one. -/
def splitAt (divider : Char) : List Char → List (List Char)
  | [] => [[]]
  | c :: s =>
    if c = divider then [] :: splitAt divider s
    else
      match splitAt divider s with
      | [] => [[c]]
      | p :: ps => (c :: p) :: ps

def pieces (p : Path) : List String := (splitAt '/' p.text.toList).map String.ofList

def ofPieces (ps : List String) : Path := ⟨"/".intercalate ps⟩

def isAbsolute (p : Path) : Bool := p.text.startsWith "/"

def isIdle (piece : String) : Bool := piece = "" || piece = "."

/-- The pieces that count, after `/` for an absolute path and `.` for a path that starts with it. -/
def parts (p : Path) : List String :=
  let counting := p.pieces.filter (!isIdle ·)
  if p.isAbsolute then "/" :: counting
  else if p.pieces.head? = some "." then "." :: counting
  else counting

/-- Whether two paths have the same parts. -/
def same (p q : Path) : Bool := p.parts == q.parts

/-- The path of a first piece and the pieces behind it. With none behind it, an empty first piece is
the root. -/
def below (first : String) : List String → Path
  | [] => ⟨if first = "" then "/" else first⟩
  | piece :: rest => ofPieces (first :: piece :: rest)

/-- The path without its last part, and without idle pieces in front of that. The root and the empty
path have no parent, and that of a single name is the empty path. -/
def parent? (p : Path) : Option Path :=
  match p.pieces with
  | [] => none
  | first :: rest =>
    match rest.reverse.dropWhile isIdle with
    | _ :: before => some (below first (before.dropWhile isIdle).reverse)
    | [] => if first = "" then none else some ⟨""⟩

/-- Goes on from `p` with `q`. An absolute `q` stands for itself. -/
def join (p q : Path) : Path :=
  if q.isAbsolute then q
  else if p.text = "" || p.text.endsWith "/" then ⟨p.text ++ q.text⟩
  else ⟨p.text ++ "/" ++ q.text⟩

/-- The last part, if it is a name. -/
def fileName? (p : Path) : Option String :=
  match p.parts.getLast? with
  | some name => if name = "/" || name = "." || name = ".." then none else some name
  | none => none

/-- A name up to its last dot. A dot at the start belongs to the name. -/
def stemOf (name : String) : String :=
  let cs := name.toList
  match (cs.reverse.dropWhile (· != '.')).tail.reverse with
  | [] => name
  | stem => String.ofList stem

/-- The file name without what follows its last dot. -/
def stem? (p : Path) : Option String := p.fileName?.map stemOf

end Path

end TaskRunner
