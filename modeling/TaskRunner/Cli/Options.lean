import TaskRunner.Host.Path

/-!
# Options

The words of the command line: options, then a target, more options, and the arguments of the target.
Options end at the first argument of the target, or at `--`. After the target an option that is not
known is an argument and no longer a mistake.

A word is read once, from left to right. The value of `--file` may be a word of its own; it is
settled when the next option, the next plain word or the end is met, so a mistake in a word before
that is reported first. The target is settled in the same way.

The usage line of a complaint names the options that were settled before it.
-/
namespace TaskRunner.Cli

structure Options where
  file : Option Path
  nodes : Bool
  inspect : Bool
  help : Bool
  target : Option String
  args : List String
deriving DecidableEq, Repr

def Options.none : Options := ⟨.none, false, false, false, .none, []⟩

/-- What the command line asks for. -/
inductive Request where
  | version
  | run (o : Options)
deriving DecidableEq, Repr

/-- How a usage line speaks of options. -/
inductive UsageForm where
  /-- By the word `[OPTIONS]`. -/
  | general
  /-- By those given. -/
  | given (options : List String)
  /-- By those given, and all that may be given as a choice. -/
  | choice (options : List String)
deriving DecidableEq, Repr

namespace UsageForm

/-- All that may be given, but for the version. -/
def everything : String := "<TARGET|ARGS|--file <PATH>|--nodes|--inspect|--help>"

def line (f : UsageForm) : String :=
  let words :=
    match f with
    | .general => ["[OPTIONS]", "[TARGET]", "[ARGS]..."]
    | .given options => options ++ ["[TARGET]", "[ARGS]..."]
    | .choice options => options ++ [everything]
  "Usage: " ++ " ".intercalate ("doit" :: words) ++ "\n"

def ofOptions (options : List String) : UsageForm :=
  if options.isEmpty then .general else .given options

end UsageForm

def usageLine : String := UsageForm.general.line

inductive OptionError where
  | unexpected (word : String) (usage : UsageForm)
  | missingValue
  | repeated (option : String)
  | needlessValue (option value : String) (usage : UsageForm)
deriving DecidableEq, Repr

def OptionError.message : OptionError → String
  | .unexpected word usage =>
    "error: unexpected argument '" ++ word ++ "' found\n\n  tip: to pass '" ++ word ++
      "' as a value, use '-- " ++ word ++ "'\n\n" ++ usage.line
  | .missingValue => "error: a value is required for '--file <PATH>' but none was supplied\n"
  | .repeated option =>
    "error: the argument '" ++ option ++ "' cannot be used multiple times\n\n" ++ usageLine
  | .needlessValue option value usage =>
    "error: unexpected value '" ++ value ++ "' for '" ++ option ++
      "' found; no more were expected\n\n" ++ usage.line

/-- Options without a value. -/
inductive Switch where
  | nodes
  | inspect
  | help
  | version
deriving DecidableEq, Repr

def Switch.name : Switch → String
  | .nodes => "--nodes"
  | .inspect => "--inspect"
  | .help => "--help"
  | .version => "--version"

/-- An option by its long name. -/
inductive Known where
  | file
  | switch (s : Switch)
deriving DecidableEq, Repr

/-- How a usage line writes an option. -/
def Known.usage : Known → String
  | .file => "--file <PATH>"
  | .switch s => s.name

def Known.ofName? : String → Option Known
  | "file" => some .file
  | "nodes" => some (.switch .nodes)
  | "inspect" => some (.switch .inspect)
  | "help" => some (.switch .help)
  | "version" => some (.switch .version)
  | _ => none

/-- An option by its letter. -/
def Known.ofLetter? : Char → Option Known
  | 'f' => some .file
  | 'h' => some (.switch .help)
  | 'V' => some (.switch .version)
  | _ => none

/-- The state of a `--file` whose value is a word of its own. -/
inductive Pending where
  | nothing
  | awaited
  | given (value : String)
deriving DecidableEq, Repr

/-- `settled` are the options that were taken over, in order, and `anything` says whether anything at
all was. -/
structure Reader where
  options : Options
  pending : Pending
  settled : List Known
  anything : Bool
deriving DecidableEq, Repr

/-- Where reading stands after a word. -/
inductive Progress where
  /-- Options may follow. -/
  | reading (r : Reader)
  /-- Everything that follows is a target or an argument. -/
  | plain (r : Reader)
  | version
deriving DecidableEq, Repr

namespace Reader

def start : Reader := ⟨.none, .nothing, [], false⟩

/-- Counts an option as taken over. -/
def withSettled (r : Reader) (k : Known) : Reader :=
  { r with settled := r.settled ++ [k], anything := true }

def setFile (r : Reader) (value : String) : Except OptionError Reader :=
  if r.options.file.isSome then .error (.repeated Known.file.usage)
  else if value = "" then .error .missingValue
  else
    .ok { r.withSettled .file with
      options := { r.options with file := some ⟨value⟩ }, pending := .nothing }

/-- Takes over the value that was waited for, and the target. -/
def settle (r : Reader) : Except OptionError Reader :=
  let r := { r with anything := r.anything || r.options.target.isSome }
  match r.pending with
  | .nothing => .ok r
  | .awaited => .error .missingValue
  | .given value => r.setFile value

/-- The options that are settled once a mistake has been met: an empty value still counts, while a
value that comes second takes the first one back. -/
def settledAtMistake (r : Reader) : List Known :=
  match r.pending with
  | .given _ => if r.options.file.isSome then r.settled.erase .file else r.settled ++ [.file]
  | _ => r.settled

def isSet (r : Reader) : Switch → Bool
  | .nodes => r.options.nodes
  | .inspect => r.options.inspect
  | .help => r.options.help
  | .version => false

def set (r : Reader) : Switch → Reader
  | .nodes => { r with options := { r.options with nodes := true } }
  | .inspect => { r with options := { r.options with inspect := true } }
  | .help => { r with options := { r.options with help := true } }
  | .version => r

/-- Meets a switch. Each may be given once. -/
def switch (r : Reader) (s : Switch) : Except OptionError Reader :=
  match r.settle with
  | .error e => .error e
  | .ok r =>
    if r.isSet s then .error (.repeated s.name) else .ok ((r.set s).withSettled (.switch s))

/-- Meets `--file`, with a value in the same word or not. -/
def file (r : Reader) (value : Option String) : Except OptionError Reader :=
  match r.settle, value with
  | .error e, _ => .error e
  | .ok r, some value => r.setFile value
  | .ok r, none => .ok { r with pending := .awaited }

/-- Meets a target or an argument. -/
def word (r : Reader) (w : String) : Except OptionError Reader :=
  match r.settle with
  | .error e => .error e
  | .ok r =>
    match r.options.target with
    | none => .ok { r with options := { r.options with target := some w } }
    | some _ => .ok { r with options := { r.options with args := r.options.args ++ [w] } }

/-- Meets a word that is no option. It is the value that is waited for, if one is. -/
def plainWord (r : Reader) (w : String) : Except OptionError Progress :=
  if r.pending = .awaited then .ok (.reading { r with pending := .given w })
  else
    match r.word w with
    | .error e => .error e
    | .ok next => .ok (if r.options.target.isSome then .plain next else .reading next)

/-- The complaint about a long name that is not known. -/
def unexpected (r : Reader) (name : String) : OptionError :=
  .unexpected ("--" ++ name) (.ofOptions (r.settledAtMistake.map Known.usage))

/-- The complaint about a value for a switch. -/
def needlessValue (r : Reader) (s : Switch) (value : String) : OptionError :=
  let usage : UsageForm :=
    if !r.anything then .given [s.name]
    else .choice (if s = .version then [s.name] else [])
  .needlessValue s.name value usage

/-- Meets a switch by name or letter. -/
def switchWord (r : Reader) (s : Switch) (go : Reader → Except OptionError Progress) :
    Except OptionError Progress :=
  match r.switch s with
  | .error e => .error e
  | .ok next => if s = .version then .ok .version else go next

def longWord (r : Reader) (w name : String) (value : Option String) :
    Except OptionError Progress :=
  match Known.ofName? name, value with
  | none, _ => if r.options.target.isSome then r.plainWord w else .error (r.unexpected name)
  | some .file, value => (r.file value).map .reading
  | some (.switch s), none => r.switchWord s fun next => .ok (.reading next)
  | some (.switch s), some value => .error (r.needlessValue s value)

/-- Reads the letters of a word such as `-hf`. What follows an `f` is its value. -/
def letters (r : Reader) : List Char → Except OptionError Progress
  | [] => .ok (.reading r)
  | c :: rest =>
    match Known.ofLetter? c with
    | none => .error (.unexpected (String.ofList ['-', c]) .general)
    | some (.switch s) => r.switchWord s fun next => letters next rest
    | some .file =>
      let value :=
        match rest with
        | [] => none
        | '=' :: v => some (String.ofList v)
        | v => some (String.ofList v)
      (r.file value).map .reading

/-- A word of letters that are not all known is an argument once there is a target. -/
def shortWord (r : Reader) (w : String) (cs : List Char) : Except OptionError Progress :=
  if r.options.target.isSome && cs.any fun c => (Known.ofLetter? c).isNone then r.plainWord w
  else r.letters cs

def step (r : Reader) (w : String) : Except OptionError Progress :=
  match w.toList with
  | ['-', '-'] => if r.pending = .awaited then .error .missingValue else .ok (.plain r)
  | '-' :: '-' :: cs =>
    let name := String.ofList (cs.takeWhile (· != '='))
    match cs.dropWhile (· != '=') with
    | [] => r.longWord w name none
    | _ :: value => r.longWord w name (some (String.ofList value))
  | '-' :: c :: cs => r.shortWord w (c :: cs)
  | _ => r.plainWord w

def finish (r : Reader) : Except OptionError Request :=
  r.settle.map fun r => .run r.options

/-- Reads words that are all plain. -/
def readPlain : Reader → List String → Except OptionError Request
  | r, [] => r.finish
  | r, w :: rest =>
    match r.word w with
    | .error e => .error e
    | .ok next => readPlain next rest

def read : Reader → List String → Except OptionError Request
  | r, [] => r.finish
  | r, w :: rest =>
    match r.step w with
    | .error e => .error e
    | .ok .version => .ok .version
    | .ok (.reading next) => read next rest
    | .ok (.plain next) => readPlain next rest

end Reader

/-- Reads the words of a command line. -/
def Request.ofWords (words : List String) : Except OptionError Request := Reader.start.read words

end TaskRunner.Cli
