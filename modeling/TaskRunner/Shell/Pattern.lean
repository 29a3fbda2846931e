import TaskRunner.Grammar.Token
import TaskRunner.Host.Files

/-!
# Patterns

In a pattern `*` stands for any text, `?` for any byte and `[...]` for one byte of a set, unless
they are quoted. Patterns are compared byte by byte: a character is as many bytes as its UTF-8
form has. A pattern is held against a text, or against the names of files, where a name that
begins with a point has to be asked for by a point.
-/
namespace TaskRunner.Shell

/-- A character of a word, and whether it stands for itself. -/
structure Letter where
  quoted : Bool
  char : Char
deriving DecidableEq, Repr

/-- The bytes of a character, each as a character below 256. -/
def bytesOf (c : Char) : List Char :=
  (String.singleton c).toUTF8.toList.map fun b => Char.ofNat b.toNat

inductive SetItem where
  | range (low high : Char)
  | kind (holds : Char → Bool)

def SetItem.has (c : Char) : SetItem → Bool
  | .range low high => low ≤ c && c ≤ high
  | .kind holds => holds c

inductive PatternPart where
  | byte (c : Char)
  | anyByte
  | anyText
  | oneOf (negated : Bool) (items : List SetItem)

namespace PatternPart

/-- The kinds of bytes that have names. -/
def kind? (name : String) : Option (Char → Bool) :=
  match name with
  | "alpha" => some Grammar.isLetter
  | "digit" => some Grammar.isDigit
  | "alnum" => some fun c => Grammar.isLetter c || Grammar.isDigit c
  | "lower" => some fun c => 'a' ≤ c && c ≤ 'z'
  | "upper" => some fun c => 'A' ≤ c && c ≤ 'Z'
  | "space" => some fun c => c == ' ' || ('\t' ≤ c && c ≤ '\r')
  | "blank" => some fun c => c == ' ' || c == '\t'
  | "punct" => some fun c => '!' ≤ c && c ≤ '~' && !Grammar.isLetter c && !Grammar.isDigit c
  | "print" => some fun c => ' ' ≤ c && c ≤ '~'
  | "graph" => some fun c => '!' ≤ c && c ≤ '~'
  | "cntrl" => some fun c => c < ' ' || c == '\x7f'
  | "xdigit" => some fun c => Grammar.isDigit c || ('a' ≤ c && c ≤ 'f') || ('A' ≤ c && c ≤ 'F')
  | _ => none

/-- The name of a kind such as `[:digit:]`, behind its first two characters, and what follows. -/
def kindName (s : List Letter) : Option ((Char → Bool) × List Letter) :=
  let name := s.takeWhile fun l => Grammar.isLetter l.char
  match kind? (String.ofList (name.map (·.char))), s.drop name.length with
  | some holds, ⟨false, ':'⟩ :: ⟨false, ']'⟩ :: rest => some (holds, rest)
  | _, _ => none

/-- The items of a set up to its closing bracket. A bracket that comes first is an item. -/
def items : Nat → Bool → List Letter → Option (List SetItem × List Letter)
  | 0, _, _ => none
  | _ + 1, _, [] => none
  | n + 1, first, ⟨false, ']'⟩ :: s =>
    if first then (items n false s).map fun (is, rest) => (.range ']' ']' :: is, rest)
    else some ([], s)
  | n + 1, _, ⟨false, '['⟩ :: ⟨false, ':'⟩ :: s =>
    match kindName s with
    | some (holds, rest) => (items n false rest).map fun (is, rest) => (.kind holds :: is, rest)
    | none =>
      (items n false (⟨false, ':'⟩ :: s)).map fun (is, rest) => (.range '[' '[' :: is, rest)
  | n + 1, _, a :: ⟨false, '-'⟩ :: b :: s =>
    if b = ⟨false, ']'⟩ then
      (items n false (⟨false, '-'⟩ :: b :: s)).map fun (is, rest) =>
        (.range a.char a.char :: is, rest)
    else (items n false s).map fun (is, rest) => (.range a.char b.char :: is, rest)
  | n + 1, _, a :: s => (items n false s).map fun (is, rest) => (.range a.char a.char :: is, rest)

/-- A set behind its opening bracket. -/
def set? (s : List Letter) : Option (PatternPart × List Letter) :=
  let (negated, s) :=
    match s with
    | ⟨false, '!'⟩ :: rest => (true, rest)
    | _ => (false, s)
  (items (s.length + 1) true s).map fun (is, rest) => (.oneOf negated is, rest)

/-- The parts of a pattern in bytes, of which there are at most as many as bytes. A bracket that is
not closed stands for itself. -/
def parts : Nat → List Letter → List PatternPart
  | 0, _ => []
  | _ + 1, [] => []
  | n + 1, l :: s =>
    if l.quoted then .byte l.char :: parts n s
    else if l.char = '*' then .anyText :: parts n s
    else if l.char = '?' then .anyByte :: parts n s
    else if l.char = '[' then
      match set? s with
      | some (set, rest) => set :: parts n rest
      | none => .byte '[' :: parts n s
    else .byte l.char :: parts n s

def hasByte (c : Char) : PatternPart → Bool
  | .byte d => c == d
  | .anyByte => true
  | .anyText => true
  | .oneOf negated items => (items.any (·.has c)) != negated

end PatternPart

/-- Whether bytes are as the parts say. -/
def matchesParts : List PatternPart → List Char → Bool
  | [], s => s.isEmpty
  | .anyText :: ps, [] => matchesParts ps []
  | .anyText :: ps, c :: s => matchesParts ps (c :: s) || matchesParts (.anyText :: ps) s
  | _ :: _, [] => false
  | p :: ps, c :: s => p.hasByte c && matchesParts ps s
termination_by ps s => ps.length + s.length

abbrev Pattern := List PatternPart

namespace Pattern

def ofLetters (ls : List Letter) : Pattern :=
  let bytes := ls.flatMap fun l => (bytesOf l.char).map (Letter.mk l.quoted)
  PatternPart.parts bytes.length bytes

/-- Whether a text as a whole is as the pattern says. -/
def fits (p : Pattern) (s : List Char) : Bool := matchesParts p (s.flatMap bytesOf)

/-- What is left of a text without a part at its front that fits, of several the shortest or the
longest. A text with no such part is left as it is. -/
def trimFront (p : Pattern) (longest : Bool) (s : List Char) : List Char :=
  let lengths := List.range (s.length + 1)
  let lengths := if longest then lengths.reverse else lengths
  match lengths.find? fun n => p.fits (s.take n) with
  | some n => s.drop n
  | none => s

/-- The same at the end of a text. -/
def trimBack (p : Pattern) (longest : Bool) (s : List Char) : List Char :=
  let lengths := List.range (s.length + 1)
  let lengths := if longest then lengths else lengths.reverse
  match lengths.find? fun n => p.fits (s.drop n) with
  | some n => s.take n
  | none => s

end Pattern

/-! ## Names of files -/

namespace Letter

/-- Whether a character makes a word a pattern. -/
def isActive (l : Letter) : Bool := !l.quoted && (l.char == '*' || l.char == '?' || l.char == '[')

/-- Cuts letters at slashes. -/
def pieces : List Letter → List (List Letter)
  | [] => [[]]
  | l :: s =>
    if l.char = '/' then [] :: pieces s
    else
      match pieces s with
      | [] => [[l]]
      | p :: ps => (l :: p) :: ps

end Letter

/-- The names in a directory that fit, with the two that every directory has. -/
def fittingNames (h : Host) (directory : Path) (piece : List Letter) : List String :=
  let names :=
    match h.locate ⟨if directory.text = "" then "." else directory.text⟩ with
    | .ok (l, .directory) => "." :: ".." :: h.entries l
    | _ => []
  let pattern := Pattern.ofLetters piece
  let hidden := (piece.head?.map (·.char)) == some '.'
  names.filter fun name => pattern.fits name.toList && (hidden || !name.startsWith ".")

/-- Goes on from paths that end in a slash or are empty with one piece of a pattern. -/
def extendPaths (h : Host) (paths : List String) (piece : List Letter) (last : Bool) :
    List String :=
  let ending := if last then "" else "/"
  if piece.any Letter.isActive then
    paths.flatMap fun p => (fittingNames h ⟨p⟩ piece).map fun name => p ++ name ++ ending
  else
    let name := String.ofList (piece.map (·.char))
    paths.map fun p => p ++ name ++ ending

/-- The paths that fit the pieces of a pattern. -/
def fittingPaths (h : Host) : List String → List (List Letter) → List String
  | paths, [] => paths
  | paths, [piece] => extendPaths h paths piece true
  | paths, piece :: rest => fittingPaths h (extendPaths h paths piece false) rest

/-- The paths of files that a word stands for, or the word itself if it is no pattern or there are
none. -/
def pathsOf (h : Host) (word : List Letter) : List String :=
  let itself := [String.ofList (word.map (·.char))]
  if !word.any Letter.isActive then itself
  else
    let there (p : String) : Bool :=
      match h.locate ⟨p⟩ with
      | .ok _ => true
      | .error _ => false
    match (fittingPaths h [""] (Letter.pieces word)).filter there with
    | [] => itself
    | paths => paths.mergeSort fun a b => !(b < a)

end TaskRunner.Shell
