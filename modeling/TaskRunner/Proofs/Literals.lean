import TaskRunner.Proofs.Precedence
import TaskRunner.Proofs.RoundTrip

/-!
# String literals

The grammar takes the inside of a string literal as it is written, and `unescape` says what it
stands for. `unescape` makes something of every text, also of those that the grammar does not take.
On those that it does take, it is undone by `escape`, and every text is what exactly one of them
stands for. So a text is written as a literal in one way only, and that way always works, for the
value of an assignment as well as for the help of an argument (`literals_exact`).
-/
namespace TaskRunner

open Grammar

namespace Grammar.Token

theorem stringText_escape_full (t : List Char) : stringText (escape t) = (escape t, []) := by
  have hend : stringText [] = ([], []) := rfl
  simpa using stringText_escape hend t

/-- Nothing but an escaped text is read in full. -/
theorem escape_unescape {r : List Char} (h : stringText r = (r, [])) : escape (unescape r) = r := by
  obtain ⟨t, ht, -⟩ := exists_escape r
  simp only [h] at ht
  rw [ht, unescape_escape]

end Grammar.Token

/-! ## Literals in a script -/

/-- A place for a string literal: a statement, and a script that says nothing else. -/
inductive LiteralPlace where
  /-- The value of an assignment. -/
  | value (name : String) (isOwn : IsOwnName name) (before behind last : Gap)
  /-- The help of the only argument of a target. -/
  | help (target : String) (isOwn : IsOwnName target) (required : Bool) (arg : String)
    (isName : Token.IsName arg) (inside outside before last : Gap)

namespace LiteralPlace

/-- The statement with a literal at its end, of which `raw` stands between the quotes. -/
def statement : LiteralPlace → List Char → List Char
  | .value name _ before behind _, raw =>
    name.toList ++ (before.text ++ '=' :: (behind.text ++ '"' :: (raw ++ ['"'])))
  | .help _ _ true arg _ inside outside before _, raw =>
    '<' :: (inside.text ++ (arg.toList ++ (outside.text ++ '>' ::
      (before.text ++ '"' :: (raw ++ ['"'])))))
  | .help _ _ false arg _ inside outside before _, raw =>
    '[' :: (inside.text ++ (arg.toList ++ (outside.text ++ ']' ::
      (before.text ++ '"' :: (raw ++ ['"'])))))

/-- What the statement says if the literal stands for that text. -/
def phrase : LiteralPlace → String → Phrase
  | .value name _ _ _ _, t => .assign name (.text t)
  | .help _ _ required arg _ _ _ _ _, t => .arg ⟨arg, required, some t⟩

/-- The script with only that statement. -/
def source (p : LiteralPlace) (raw : List Char) : List Char :=
  match p with
  | .value _ _ _ _ last => p.statement raw ++ last.text
  | .help target _ _ _ _ _ _ _ last =>
    target.toList ++ ' ' :: '\x7b' :: '\n' :: (p.statement raw ++ (last.text ++ ['\n', '\x7d']))

def script : LiteralPlace → String → Script
  | .value name _ _ _ _, t => ⟨none, [.assign ⟨name, .text t, 1⟩]⟩
  | .help target _ required arg _ _ _ _ _, t =>
    ⟨none, [.target ⟨target, none, [.arg ⟨arg, required, some t⟩], 1⟩]⟩

theorem script_injective (p : LiteralPlace) {t t' : String} (h : p.script t = p.script t') :
    t = t' := by
  cases p <;> simpa [script] using h

end LiteralPlace

namespace Grammar.Parser

variable {body : Parser (List Placed)}

/-- A literal is an expression of its own, and needs no parentheses. -/
theorem reads_literal (depth : Nat) (t : String) :
    Reads (expression (depth + 1)) SumEnd ('"' :: (Token.escape t.toList ++ ['"'])) (.text t) := by
  have hfactor : Reads (factor (nested depth)) FactorEnd
      ('"' :: (Token.escape t.toList ++ ['"'])) (.text t) := by
    intro rest _
    refine ⟨rest, factor_of_primary rfl (by decide) ?_, .refl rest⟩
    simpa using primary_text t
  exact reads_sum (.single (reads_term (.single hfactor)))

theorem takes_value {name : String} (h : IsOwnName name) (before behind : Gap) (depth : Nat)
    (t : String) {rest : List Char} (hrest : SumEnd rest) :
    ∃ r, AfterGap r rest ∧ Takes (nested (depth + 1)) body
      (name.toList ++ (before.text ++ '=' :: (behind.text ++
        '"' :: (Token.escape t.toList ++ '"' :: rest))))
      (.assign name (.text t)) r := by
  obtain ⟨r, hread, hr⟩ := reads_literal depth t rest hrest
  refine ⟨r, hr, .assign h (Token.name_append h.1 ?_)
    (before.blanks.dropWhile_append (Text.stopsAt_cons.2 rfl)) ?_⟩
  · exact before.stopsAt rfl rfl (Text.stopsAt_cons.2 rfl)
  · rw [behind.blanks.dropWhile_append (Text.stopsAt_cons.2 rfl)]
    simpa [nested] using hread

/-- An argument up to its closing bracket, and the literal behind it. -/
theorem declares_help {name : String} (h : Token.IsName name) (closing : Char)
    (hname : isNameChar closing = false) (hgap : isGap closing = false)
    (inside outside before : Gap) (t : String) (rest : List Char) :
    Declares closing (inside.text ++ (name.toList ++ (outside.text ++ closing ::
      (before.text ++ '"' :: (Token.escape t.toList ++ '"' :: rest))))) name (some t) rest := by
  refine ⟨outside.text ++ closing :: (before.text ++ '"' :: (Token.escape t.toList ++ '"' :: rest)),
    before.text ++ '"' :: (Token.escape t.toList ++ '"' :: rest), ?_, ?_, ?_⟩
  · rw [inside.blanks.dropWhile_append (h.stopsAt (fun _ => isGap_of_isLetter) _)]
    exact Token.name_append h (outside.stopsAt rfl rfl (Text.stopsAt_cons.2 hname))
  · exact outside.blanks.dropWhile_append (Text.stopsAt_cons.2 hgap)
  · rw [before.blanks.dropWhile_append (Text.stopsAt_cons.2 rfl)]
    exact run_optional_some (Token.string_append t)

/-- A target is the whole script. -/
theorem phrases?_target {target : String} (h : IsOwnName target) {es : List Entry} {s : List Char}
    (hes : ∀ expr body, ∀ e ∈ es, e.Read expr body)
    (hs : s = target.toList ++ ' ' :: '\x7b' :: '\n' :: (Entry.print es ++ ['\x7d'])) :
    phrases? s = some [(s, .block target (Entry.placed es ['\x7d']))] := by
  have htakes : Takes (nested (s.length + 1)) (delay fun _ => Parser.body s.length) s
      (.block target (Entry.placed es ['\x7d'])) [] := by
    obtain ⟨n, hn⟩ : ∃ n, s.length = n + 1 := by
      refine ⟨s.length - 1, ?_⟩
      rw [hs]
      simp only [List.length_append, List.length_cons]
      omega
    have hbody : (delay fun _ => Parser.body (n + 1)).run
        ('\n' :: (Entry.print es ++ ['\x7d'])) = some (Entry.placed es ['\x7d'], ['\x7d']) :=
      lines_inside (hes _ _) (.inr ⟨[], rfl⟩)
    rw [hn, hs]
    exact run_item_iff.1 (item_block h hbody)
  refine phrases?_single htakes rfl ?_
  rw [hs]
  exact h.1.stopsAt (fun _ => isGap_of_isLetter) _

end Grammar.Parser

namespace LiteralPlace

open Grammar.Parser

variable {expr : Parser Expr} {body : Parser (List Placed)}

/-- The help of an argument ends at its quote, whatever follows. -/
theorem takes_help {target arg : String} (isOwn : IsOwnName target) (required : Bool)
    (isName : Token.IsName arg) (inside outside before last : Gap) (t : String) (rest : List Char) :
    Takes expr body ((help target isOwn required arg isName inside outside before last).statement
      (Token.escape t.toList) ++ rest) (.arg ⟨arg, required, some t⟩) rest := by
  cases required with
  | true =>
    have hdeclares := declares_help isName '>' rfl rfl inside outside before t rest
    simpa [statement] using Takes.required hdeclares
  | false =>
    have hdeclares := declares_help isName ']' rfl rfl inside outside before t rest
    simpa [statement] using Takes.optional hdeclares

/-- The statement is read wherever it stands in a script. -/
theorem run_statement (p : LiteralPlace) (t : String) (depth : Nat) (body : Parser (List Placed))
    {rest : List Char} (hrest : SumEnd rest) :
    ∃ r, AfterGap r rest ∧ (item (nested (depth + 1)) body).run
      (p.statement (Token.escape t.toList) ++ rest) = some (p.phrase t, r) := by
  simp only [run_item_iff]
  cases p with
  | value name isOwn before behind last =>
    simpa [statement, phrase] using takes_value isOwn before behind depth t hrest
  | help target isOwn required arg isName inside outside before last =>
    exact ⟨rest, .refl rest, takes_help isOwn required isName inside outside before last t rest⟩

/-- The argument is a line of its own. -/
theorem read_help {target arg : String} (isOwn : IsOwnName target) (required : Bool)
    (isName : Token.IsName arg) (inside outside before last : Gap) (t : String) :
    Entry.Read expr body
      ⟨(help target isOwn required arg isName inside outside before last).statement
        (Token.escape t.toList) ++ last.text, fun _ => .arg ⟨arg, required, some t⟩⟩ := by
  intro rest
  have htakes : Takes expr body _ _ _ :=
    takes_help isOwn required isName inside outside before last t (last.text ++ '\n' :: rest)
  have hend : (last.text ++ '\n' :: rest).dropWhile isGap = '\n' :: rest :=
    last.blanks.dropWhile_append (Text.stopsAt_cons.2 rfl)
  have hline := run_line_iff.2 (.bare htakes (by rw [hend]; exact Text.stopsAt_cons.2 rfl))
  rw [hend] at hline
  simpa using hline

/-- An escaped text is read as that text. -/
theorem parse_source (p : LiteralPlace) (t : String) (filename : Option String) :
    Script.parse (String.ofList (p.source (Token.escape t.toList))) filename =
      .ok (p.script t) := by
  rw [Script.parse_eq_ok_iff, String.toList_ofList]
  cases p with
  | value name isOwn before behind last =>
    obtain ⟨r, hr, hitem⟩ :=
      (value name isOwn before behind last).run_statement t _ (delay fun _ => _) last.sumEnd
    have hstart := isOwn.1.stopsAt (fun _ => isGap_of_isLetter)
    refine ⟨_, phrases?_single (run_item_iff.1 hitem) (by rw [hr.dropWhile_eq, last.dropWhile_text])
      ?_, ?_⟩
    · rw [source, statement, List.append_assoc]
      exact hstart _
    · simp [Script.ofPhrases, Script.accept, lineOf, Script.push, Script.empty, script, phrase]
  | help target isOwn required arg isName inside outside before last =>
    have hread := fun expr body => List.forall_mem_singleton.2
      (@read_help expr body target arg isOwn required isName inside outside before last t)
    refine ⟨_, phrases?_target isOwn hread ?_, ?_⟩
    · simp [source, Entry.print, printLines]
    · simp [Script.ofPhrases, Script.accept, Entry.placed, TargetDecl.ofPhrases, TargetDecl.accept,
        TargetDecl.args, TargetDecl.push, Script.addTarget, Script.targets, lineOf, Script.push,
        Script.empty, script]

/-- A literal that is read as a text is that text escaped. -/
theorem eq_escape (p : LiteralPlace) {r : List Char} {t : String} {filename : Option String}
    (hr : Token.stringText r = (r, []))
    (h : Script.parse (String.ofList (p.source r)) filename = .ok (p.script t)) :
    r = Token.escape t.toList := by
  have hself := p.parse_source (String.ofList (Token.unescape r)) filename
  rw [String.toList_ofList, Token.escape_unescape hr, h] at hself
  have ht := p.script_injective (Except.ok.inj hself)
  rw [ht, String.toList_ofList, Token.escape_unescape hr]

end LiteralPlace

section

open Grammar.Token (escape stringText unescape)
open Grammar.Parser (SumEnd item nested)

/-- **Escapes are exact.** Every text, escaped, is taken in full as the inside of a literal and
stands for that text, and every inside that is taken in full is the escaped form of what it stands
for. So the literal of a text is read as that text, as the value of an assignment and as the help of
an argument, in any script and in one that says nothing else. Two literals that are read as one text
are the same, wherever they stand. -/
theorem literals_exact :
    (∀ t, stringText (escape t) = (escape t, []) ∧ unescape (escape t) = t) ∧
      (∀ r, stringText r = (r, []) → escape (unescape r) = r) ∧
      (∀ (p : LiteralPlace) (t : String),
        (∀ depth body rest, SumEnd rest → ∃ r, AfterGap r rest ∧
          (item (nested (depth + 1)) body).run (p.statement (escape t.toList) ++ rest) =
            some (p.phrase t, r)) ∧
        ∀ filename, Script.parse (String.ofList (p.source (escape t.toList))) filename =
          .ok (p.script t)) ∧
      ∀ (p p' : LiteralPlace) (r r' : List Char) (t : String) (filename filename' : Option String),
        stringText r = (r, []) → stringText r' = (r', []) →
        Script.parse (String.ofList (p.source r)) filename = .ok (p.script t) →
        Script.parse (String.ofList (p'.source r')) filename' = .ok (p'.script t) → r = r' := by
  refine ⟨fun t => ⟨Token.stringText_escape_full t, Token.unescape_escape t⟩,
    fun r => Token.escape_unescape, fun p t => ⟨fun depth body rest => p.run_statement t depth body,
      p.parse_source t⟩, ?_⟩
  intro p p' r r' t filename filename' hr hr' hp hp'
  rw [p.eq_escape hr hp, p'.eq_escape hr' hp']

/-- A backslash, a quote, a line feed, and what is a comment, a help mark or a brace elsewhere. -/
def marks : String := "\\\"\n# @@@ \x7b"

/-- The marks as they are written in a literal. -/
def rawMarks : List Char :=
  ['\\', '\\', '\\', '"', '\n', '#', ' ', '@', '@', '@', ' ', '\x7b']

def markedValue : LiteralPlace := .value "x" (by decide) .space .space .empty

def markedHelp : LiteralPlace :=
  .help "t" (by decide) false "arg" (by decide) .empty .empty .space .empty

theorem literals_exact_marks :
    stringText rawMarks = (rawMarks, []) ∧ escape (unescape rawMarks) = rawMarks ∧
      unescape rawMarks = marks.toList ∧ SumEnd ['\n'] ∧
      (∃ r, AfterGap r ['\n'] ∧ (item (nested 1) Parser.fail).run
        (markedValue.statement rawMarks ++ ['\n']) = some (.assign "x" (.text marks), r)) ∧
      Script.parse "x = \"\\\\\\\"\n# @@@ \x7b\"" none =
        .ok ⟨none, [.assign ⟨"x", .text marks, 1⟩]⟩ ∧
      Script.parse "t \x7b\n[arg] \"\\\\\\\"\n# @@@ \x7b\"\n\x7d" none =
        .ok ⟨none, [.target ⟨"t", none, [.arg ⟨"arg", false, some marks⟩], 1⟩]⟩ := by
  obtain ⟨-, hback, hread, -⟩ := literals_exact
  have hmatched : stringText rawMarks = (rawMarks, []) := by decide +kernel
  have hraw : escape marks.toList = rawMarks := by decide +kernel
  have hend : SumEnd ['\n'] := Parser.sumEnd_lineFeed []
  have hvalue := hread markedValue marks
  have hhelp := (hread markedHelp marks).2 none
  rw [hraw] at hvalue hhelp
  have hsource : String.ofList (markedValue.source rawMarks) =
      "x = \"\\\\\\\"\n# @@@ \x7b\"" := by decide +kernel
  have hsource' : String.ofList (markedHelp.source rawMarks) =
      "t \x7b\n[arg] \"\\\\\\\"\n# @@@ \x7b\"\n\x7d" := by decide +kernel
  refine ⟨hmatched, hback rawMarks hmatched, by decide +kernel, hend, hvalue.1 0 _ _ hend, ?_, ?_⟩
  · rw [← hsource]
    exact hvalue.2 none
  · rw [← hsource']
    exact hhelp

end

end TaskRunner
