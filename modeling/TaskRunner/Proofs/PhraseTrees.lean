import TaskRunner.Proofs.ExpressionTrees
import TaskRunner.Proofs.Loop
import TaskRunner.Proofs.Phrases
import TaskRunner.Script.Reader

/-!
# Trees of phrases

Each tree that a rule of the grammar leaves for a phrase says one phrase (`Says`): the builder finds
all parts of it where it looks for them, and finds in them what the phrase has. So to build a script
from the tree of its body is to put its phrases in their places (`ofTree_eq`), and that is how a
script can be read as well (`parse_of_phrases`).
-/
namespace TaskRunner

namespace Grammar

namespace Trees

open TaskRunner.Grammar.Parser

variable {c : Construct}

/-! ## Phrases -/

/-- What a tree says as a phrase, and where it stands. -/
inductive Says : ParseTree → Placed → Prop
  | comment {t : ParseTree} : t.kind = .comment → Says t (t.start, .comment t.commentText)
  | help {t : ParseTree} : t.kind = .helpBlock → Says t (t.start, .help t.helpText)
  | assign {t value : ParseTree} {e : Expr} : t.kind = .assignment → t.inner[1]? = some value →
    (∀ source, value.expr source = .ok e) → Says t (t.start, .assign (String.ofList t.inside) e)
  | command {t : ParseTree} : t.kind = .commandLine → Says t (t.start, .command t.commandText)
  | python {t : ParseTree} : t.kind = .pythonLine → Says t (t.start, .python t.commandText)
  | arg {t : ParseTree} : t.kind = .requiredArg ∨ t.kind = .optionalArg →
    Says t (t.start, .arg t.argDecl)
  | exit {t : ParseTree} {code : Option Expr} : t.kind = .exit →
    (∀ source, t.exitCode source = .ok code) → Says t (t.start, .exit code)
  | yield {t : ParseTree} : t.kind = .yield → Says t (t.start, .yield)
  | oneLine {t command : ParseTree} : t.kind = .targetLine → t.inner[1]? = some command →
    Says t (t.start, .oneLine (String.ofList t.inside) (String.ofList (Text.trim command.chars)))
  | block {t body : ParseTree} {ps : List Placed} : t.kind = .targetBlock →
    t.inner[1]? = some body → List.Forall₂ Says body.inner ps →
    Says t (t.start, .block (String.ofList t.inside) ps)

/-- The tree of one phrase. -/
def SaysOne (ts : List ParseTree) (p : Placed) : Prop := ∃ t, ts = [t] ∧ Says t p

/-- The tree of a body. -/
def SaysAll (ts : List ParseTree) (ps : List Placed) : Prop :=
  ∃ t, ts = [t] ∧ t.kind = .body ∧ List.Forall₂ Says t.inner ps

theorem helpText_split (s : List Char) : s = (Token.helpText s).1 ++ (Token.helpText s).2 := by
  fun_induction Token.helpText s with
  | case1 => rfl
  | case2 s => rfl
  | case3 c s _ t r h ih =>
    rw [h] at ih
    exact congrArg (c :: ·) ih

theorem helpBlock_agree (s : List Char) :
    AgreeAt (fun ts phrase _ => SaysOne ts (s, phrase)) s helpBlock Parser.helpBlock := by
  have hinside := inside_agree (s := s) .helpText helpOpening ['@', '@', '@']
    Token.dropLastLineFeed helpText_split
  have htoken : AgreeAt _ s (do
      word ['@', '@', '@']
      gap
      lineEnd
      let text ← mark .helpText (bare (silent fun s => some (Token.helpText s)))
      word ['@', '@', '@']
      pure text) (silent Token.helpBlock) :=
    hinside.of_runs (by simp only [helpOpening, run_bind, Option.bind_assoc])
      (run_helpBlock_enclosed s)
  refine (((tree_agree .helpBlock htoken).map (k := Phrase.help)) ?_).of_run rfl
  rintro ts _ r ⟨_, rfl, t, rfl, hkind, rfl⟩
  refine ⟨.node .helpBlock s r [t], rfl, ?_⟩
  have htext : (ParseTree.node .helpBlock s r [t]).helpText =
      String.ofList (Token.dropLastLineFeed t.chars) := by
    simp [ParseTree.helpText, ParseTree.inner, hkind]
  rw [← htext]
  exact .help rfl

theorem comment_agree (s : List Char) :
    AgreeAt (fun ts p _ => SaysOne ts p) s comment
      (placed (Phrase.comment <$> Parser.comment)) := by
  rcases note_cases s with hs | ⟨v, rfl⟩
  · have hnone : Token.comment s = none := comment_eq_none hs
    exact .inl ⟨by simp [comment, leaf, tree, mark, bare, hnone], run_note_none hs⟩
  · have hsplit : '#' :: v = '#' :: (Token.restOfLine v).1 ++ (Token.restOfLine v).2 := by
      simp [Token.restOfLine]
    have htext : (ParseTree.node .comment ('#' :: v) (Token.restOfLine v).2 []).commentText =
        String.ofList (Token.restOfLine v).1 := by
      rw [ParseTree.commentText, ParseTree.chars_node hsplit]
      rfl
    refine .inr ⟨_, _, _, rfl, run_note_cons v, _, rfl, ?_⟩
    rw [← htext]
    exact .comment rfl

/-- The tree of a command. -/
def Commands (ts : List ParseTree) (text : String) : Prop :=
  ∃ t, ts = [t] ∧ String.ofList (Text.trim t.chars) = text

theorem commandText_agree (s : List Char) :
    AgreeAt (fun ts text _ => Commands ts text) s commandText Parser.commandText := by
  refine .after gap fun _ u => .inr ⟨_, _, _, rfl, rfl, _, rfl, ?_⟩
  rw [ParseTree.chars_node List.takeWhile_append_dropWhile.symm]

/-- The tree of a line for an interpreter, which is a mark and a command. -/
theorem marked_agree (mark : List Char) (k : String → Phrase)
    (hk : ∀ t : ParseTree, t.kind = c → Says t (t.start, k t.commandText)) (s : List Char) :
    AgreeAt (fun ts phrase _ => SaysOne ts (s, phrase)) s
      (tree c (word mark >>= fun _ => commandText))
      (word mark >>= fun _ => k <$> Parser.commandText) := by
  have hparts : AgreeAt (fun ts phrase _ => ∃ text, Commands ts text ∧ phrase = k text) s
      (word mark >>= fun _ => commandText) (word mark >>= fun _ => k <$> Parser.commandText) :=
    .after (word mark) fun _ u => (commandText_agree u).map fun ts text _ h => ⟨text, h, rfl⟩
  refine (tree_agree c hparts).mono ?_
  rintro _ _ r - ⟨_, rfl, _, ⟨t, rfl, rfl⟩, rfl⟩
  exact ⟨_, rfl, hk (.node c s r [t]) rfl⟩

theorem commandLine_agree (s : List Char) :
    AgreeAt (fun ts phrase _ => SaysOne ts (s, phrase)) s commandLine Parser.commandLine :=
  (marked_agree ['$'] Phrase.command (fun _ hk => .command hk) s).of_run rfl

theorem pythonLine_agree (s : List Char) :
    AgreeAt (fun ts phrase _ => SaysOne ts (s, phrase)) s pythonLine Parser.pythonLine :=
  (marked_agree ['>', '>', '>'] Phrase.python (fun _ hk => .python hk) s).of_run rfl

theorem inside_of_name {t : ParseTree} {name : String} (h : t.chars = name.toList)
    (s r : List Char) (more : List ParseTree) :
    String.ofList (ParseTree.node c s r ([t] ++ more)).inside = name := by
  simp [ParseTree.inside, ParseTree.inner, h]

/-- The tree of a name and, if there is one, of a help text. -/
theorem declaration_agree (opening closing : Char) {required : Bool}
    (hc : c = .requiredArg ∨ c = .optionalArg) (hrequired : decide (c = .requiredArg) = required)
    (s : List Char) :
    AgreeAt (fun ts phrase _ => SaysOne ts (s, phrase)) s (declaration c opening closing)
      (Parser.declaration opening closing required) := by
  have hstring (t : List Char) : AgreeAt (fun ts text _ => Quotes ts text) t string
      Parser.string := (string_agree t).mono fun _ _ _ _ h => h.1
  have hparts : AgreeAt (fun ts phrase _ => ∃ names name help text?, ts = names ++ help.getD [] ∧
        Names names name ∧ Option.Rel Quotes help text? ∧
        phrase = Phrase.arg ⟨name, required, text?⟩) s
      (do
        word [opening]
        gap
        let name ← identifier
        gap
        word [closing]
        gap
        let help ← Parser.optional string
        pure (name ++ help.getD []))
      (Parser.declaration opening closing required) :=
    .after _ fun _ _ => .after gap fun _ t => (identifier_agree t).bind fun names name _ hn =>
      .after gap fun _ _ => .after _ fun _ _ => .after gap fun _ u =>
      (hstring u).optional.bind fun help text? _ hh =>
      .pure ⟨names, name, help, text?, rfl, hn.1, hh, rfl⟩
  refine (tree_agree c hparts).mono ?_
  rintro ts _ r - ⟨_, rfl, _, name, help, text?, rfl, ⟨t, rfl, hname⟩, hhelp, rfl⟩
  have harg : (ParseTree.node c s r ([t] ++ help.getD [])).argDecl = ⟨name, required, text?⟩ := by
    have htext : (([t] ++ help.getD [])[1]?).map ParseTree.quoted = text? := by
      cases hhelp with
      | none => rfl
      | some hq =>
        obtain ⟨u, rfl, rfl⟩ := hq
        rfl
    rw [ParseTree.argDecl, inside_of_name hname]
    exact congr (congrArg _ hrequired) htext
  refine ⟨_, rfl, ?_⟩
  rw [← harg]
  exact .arg hc

theorem yield_agree (s : List Char) :
    AgreeAt (fun ts phrase _ => SaysOne ts (s, phrase)) s yield Parser.yield := by
  refine (((tree_agree .yield (leaf_agree .yieldKeyword rfl)).map
    (k := fun _ : Unit => Phrase.yield)) ?_).of_run rfl
  rintro _ _ r ⟨_, rfl, -⟩
  exact ⟨_, rfl, .yield rfl⟩

section

variable {expr body : Parser (List ParseTree)} {expr' : Parser Expr} {body' : Parser (List Placed)}

theorem exit_agree
    (hexpr : ∀ s, AgreeAt (fun ts e _ => Denotes [.expression] ts e) s expr expr') (s : List Char) :
    AgreeAt (fun ts phrase _ => SaysOne ts (s, phrase)) s (exit expr) (Parser.exit expr') := by
  have hparts : AgreeAt (fun ts phrase _ => ∃ keyword code code', ts = keyword ++ code.getD [] ∧
        (∃ t : ParseTree, keyword = [t] ∧ t.kind = .exitKeyword) ∧
        Option.Rel (Denotes [.expression]) code code' ∧ phrase = Phrase.exit code') s
      (do
        let keyword ← leaf .exitKeyword (silent (Token.keyword ['e', 'x', 'i', 't']))
        gap
        let code ← Parser.optional expr
        pure (keyword ++ code.getD []))
      (Parser.exit expr') :=
    AgreeAt.of_run ((leaf_agree .exitKeyword rfl).bind fun keyword _ _ hk =>
      .after gap fun _ t => (hexpr t).optional.bind_map fun code code' _ hcode =>
      ⟨keyword, code, code', rfl, ⟨_, hk.1, rfl⟩, hcode, rfl⟩) rfl
  refine (tree_agree .exit hparts).mono ?_
  rintro _ _ r - ⟨_, rfl, _, code, code', rfl, ⟨t, rfl, hkind⟩, hcode, rfl⟩
  refine ⟨_, rfl, .exit rfl fun source => ?_⟩
  cases hcode with
  | none => simp [ParseTree.exitCode, ParseTree.inner, hkind]
  | some he =>
    obtain ⟨u, rfl, hu, he⟩ := he
    rw [List.mem_singleton] at hu
    simp [ParseTree.exitCode, ParseTree.inner, hkind, hu, he source]

theorem assignment_agree
    (hexpr : ∀ s, AgreeAt (fun ts e _ => Denotes [.expression] ts e) s expr expr') (s : List Char) :
    AgreeAt (fun ts phrase _ => SaysOne ts (s, phrase)) s (assignment expr)
      (Parser.assignment expr') := by
  have hparts : AgreeAt (fun ts phrase _ => ∃ names name value e, ts = names ++ value ∧
        Names names name ∧ Denotes [.expression] value e ∧ phrase = Phrase.assign name e) s
      (do
        let name ← identifier
        gap
        word ['=']
        gap
        let value ← expr
        pure (name ++ value))
      (Parser.assignment expr') :=
    AgreeAt.of_run ((identifier_agree s).bind fun names name _ hn => .after gap fun _ _ =>
      .after (word ['=']) fun _ _ => .after gap fun _ t => (hexpr t).bind_map fun value e _ he =>
      ⟨names, name, value, e, rfl, hn.1, he, rfl⟩) rfl
  refine (tree_agree .assignment hparts).mono ?_
  rintro _ _ r - ⟨_, rfl, _, name, _, e, rfl, ⟨t, rfl, hname⟩, ⟨value, rfl, -, he⟩, rfl⟩
  refine ⟨_, rfl, ?_⟩
  rw [← inside_of_name hname s r [value]]
  exact .assign rfl rfl he

theorem targetLine_agree (s : List Char) :
    AgreeAt (fun ts phrase _ => SaysOne ts (s, phrase)) s targetLine Parser.targetLine := by
  have hparts : AgreeAt (fun ts phrase _ => ∃ names name command text, ts = names ++ command ∧
        Names names name ∧ Commands command text ∧ phrase = Phrase.oneLine name text) s
      (do
        let name ← identifier
        gap
        word [':']
        let text ← commandText
        pure (name ++ text))
      Parser.targetLine :=
    AgreeAt.of_run ((identifier_agree s).bind fun names name _ hn => .after gap fun _ _ =>
      .after (word [':']) fun _ t => (commandText_agree t).bind_map fun command text _ ht =>
      ⟨names, name, command, text, rfl, hn.1, ht, rfl⟩) rfl
  refine (tree_agree .targetLine hparts).mono ?_
  rintro _ _ r - ⟨_, rfl, _, name, _, _, rfl, ⟨t, rfl, hname⟩, ⟨command, rfl, rfl⟩, rfl⟩
  refine ⟨_, rfl, ?_⟩
  rw [← inside_of_name hname s r [command]]
  exact .oneLine rfl rfl

theorem targetBlock_agree (hbody : ∀ s, AgreeAt (fun ts ps _ => SaysAll ts ps) s body body')
    (s : List Char) :
    AgreeAt (fun ts phrase _ => SaysOne ts (s, phrase)) s (targetBlock body)
      (Parser.targetBlock body') := by
  have hparts : AgreeAt (fun ts phrase _ => ∃ names name trees ps, ts = names ++ trees ∧
        Names names name ∧ SaysAll trees ps ∧ phrase = Phrase.block name ps) s
      (do
        let name ← identifier
        gap
        let _ ← many (gap >>= fun _ => lineEnd)
        gap
        word ['\x7b']
        gap
        let trees ← body
        gap
        word ['\x7d']
        pure (name ++ trees))
      (Parser.targetBlock body') :=
    AgreeAt.of_run ((identifier_agree s).bind fun names name _ hn => .after gap fun _ _ =>
      .after _ fun _ _ => .after gap fun _ _ => .after (word ['\x7b']) fun _ _ =>
      .after gap fun _ t => (hbody t).bind fun trees ps _ hps => .after gap fun _ _ =>
      .after (word ['\x7d']) fun _ _ => .pure ⟨names, name, trees, ps, rfl, hn.1, hps, rfl⟩) rfl
  refine (tree_agree .targetBlock hparts).mono ?_
  rintro _ _ r - ⟨_, rfl, _, name, _, ps, rfl, ⟨t, rfl, hname⟩, ⟨trees, rfl, -, hps⟩, rfl⟩
  refine ⟨_, rfl, ?_⟩
  rw [← inside_of_name hname s r [trees]]
  exact .block rfl rfl hps

variable (hexpr : ∀ s, AgreeAt (fun ts e _ => Denotes [.expression] ts e) s expr expr')
  (hbody : ∀ s, AgreeAt (fun ts ps _ => SaysAll ts ps) s body body')
include hexpr hbody

theorem item_agree (s : List Char) :
    AgreeAt (fun ts p _ => SaysOne ts p) s (item expr body)
      (placed (Parser.item expr' body')) := by
  have hitem : AgreeAt (fun ts phrase _ => SaysOne ts (s, phrase)) s (item expr body)
      (Parser.item expr' body') := by
    refine .firstOf (.cons (helpBlock_agree s) (.cons (commandLine_agree s)
      (.cons (pythonLine_agree s) (.cons ?_ (.cons ?_ (.cons (exit_agree hexpr s)
      (.cons (yield_agree s) (.cons (targetBlock_agree hbody s) (.cons (targetLine_agree s)
      (.cons (assignment_agree hexpr s) .nil))))))))))
    · exact (declaration_agree '<' '>' (.inl rfl) rfl s).of_run rfl
    · exact (declaration_agree '[' ']' (.inr rfl) rfl s).of_run rfl
  rcases hitem with ⟨hq, hp⟩ | ⟨ts, phrase, r, hq, hp, h⟩
  · exact .inl ⟨hq, by simp [placed, hp]⟩
  · exact .inr ⟨ts, (s, phrase), r, hq, by simp [placed, hp], h⟩

/-- The trees of a line are those of its phrases. -/
theorem line_agree (s : List Char) :
    AgreeAt (fun ts ps _ => List.Forall₂ Says ts ps) s (line expr body)
      (Parser.line expr' body') := by
  have hone {ts : List ParseTree} {p : Placed} (h : SaysOne ts p) : List.Forall₂ Says ts [p] := by
    obtain ⟨t, rfl, ht⟩ := h
    exact .cons ht .nil
  refine .orElse ?_ ?_
  · refine (item_agree hexpr hbody s).bind fun ts p _ hp => .after gap fun _ u =>
      (comment_agree u).optional.bind fun note note' _ hnote => .pure ?_
    have hnote' : List.Forall₂ Says (note.getD []) note'.toList := by
      cases hnote with
      | none => exact .nil
      | some h => exact hone h
    exact List.rel_append (hone hp) hnote'
  · have hcomment := (comment_agree s).map (k := fun note => [note])
      (S := fun ts ps _ => List.Forall₂ Says ts ps) fun ts p _ hp => hone hp
    exact hcomment.of_run rfl

theorem nextLine_agree (s : List Char) :
    AgreeAt (fun ts ps _ => Option.Rel (List.Forall₂ Says) ts ps) s (nextLine expr body)
      (Parser.nextLine expr' body') :=
  .after gap fun _ _ => .after lineEnd fun _ _ => .after gap fun _ t =>
    (line_agree hexpr hbody t).optional

theorem lines_agree (s : List Char) :
    AgreeAt (fun ts ps _ => SaysAll ts ps) s (lines expr body) (Parser.lines expr' body') := by
  -- An empty line has no phrases, and no trees.
  have hmissing (ts : Option (List ParseTree)) (ps : Option (List Placed))
      (h : Option.Rel (List.Forall₂ Says) ts ps) :
      List.Forall₂ Says (ts.getD []) (ps.getD []) := by
    cases h with
    | none => exact .nil
    | some h => exact h
  have hparts : AgreeAt (fun ts ps _ => List.Forall₂ Says ts ps) s
      (do
        gap
        let first ← Parser.optional (line expr body)
        let rest ← many (nextLine expr body)
        pure ((first :: rest).flatMap (·.getD [])))
      (Parser.lines expr' body') :=
    AgreeAt.of_run (.after gap fun _ t => (line_agree hexpr hbody t).optional.bind
      fun first first' _ hfirst => (AgreeAt.many (nextLine_agree hexpr hbody)).bind
      fun rest rest' _ hrest => .pure (List.rel_flatMap (.cons hfirst hrest) hmissing)) rfl
  refine (tree_agree .body hparts).mono ?_
  rintro _ ps r - ⟨inner, rfl, h⟩
  exact ⟨_, rfl, rfl, h⟩

end

theorem body_agree : ∀ (depth : Nat) (s : List Char),
    AgreeAt (fun ts ps _ => SaysAll ts ps) s (body depth) (Parser.body depth)
  | 0, _ => .inl ⟨rfl, rfl⟩
  | depth + 1, s => by
    have hexpr (t : List Char) : AgreeAt (fun ts e _ => Denotes [.expression] ts e) t
        (delay fun _ => expression (depth + 1)) (delay fun _ => Parser.expression (depth + 1)) :=
      .delay (expression_agree (depth + 1) t)
    have hbody (t : List Char) : AgreeAt (fun ts ps _ => SaysAll ts ps) t
        (delay fun _ => body depth) (delay fun _ => Parser.body depth) :=
      .delay (body_agree depth t)
    exact lines_agree hexpr hbody s

/-- The tree of a script, with that of its body inside. -/
theorem script_agree (depth : Nat) (s : List Char) :
    AgreeAt (fun ts ps _ => ∃ b, bodyOf? ts = some b ∧ List.Forall₂ Says b.inner ps) s
      (script depth) (Parser.script depth) := by
  have hparts : AgreeAt (fun ts ps _ => ∃ trees last, ts = trees ++ last ∧ SaysAll trees ps) s
      (do
        gap
        let trees ← body depth
        gap
        let last ← leaf .endOfInput (silent fun s => if s.isEmpty then some ((), []) else none)
        pure (trees ++ last))
      (Parser.script depth) :=
    AgreeAt.of_run (.after gap fun _ t => (body_agree depth t).bind fun trees ps _ hps =>
      .after gap fun _ u => (leaf_agree .endOfInput rfl).bind fun last _ _ _ =>
      .pure ⟨trees, last, rfl, hps⟩) rfl
  refine (tree_agree .script hparts).mono ?_
  rintro _ ps r - ⟨_, rfl, _, last, rfl, b, rfl, hkind, hps⟩
  exact ⟨b, by simp [bodyOf?, ParseTree.inner, hkind], hps⟩

end Trees

/-- **The trees of a text are those of its phrases.** -/
theorem trees?_phrases? (s : List Char) :
    (trees? s = none ∧ phrases? s = none) ∨
      ∃ ts b ps, trees? s = some ts ∧ bodyOf? ts = some b ∧ phrases? s = some ps ∧
        List.Forall₂ Trees.Says b.inner ps := by
  unfold trees? phrases?
  rcases Trees.script_agree (s.length + 1) s with ⟨hq, hp⟩ | ⟨ts, ps, r, hq, hp, b, hb, h⟩
  · rw [hq, hp]
    exact .inl ⟨rfl, rfl⟩
  · rw [hq, hp]
    exact .inr ⟨ts, b, ps, rfl, hb, rfl, h⟩

end Grammar

/-! ## The builder -/

open Grammar Trees

section

variable {source : List Char} {t : ParseTree} {p : Placed}

theorem TargetDecl.add_eq (h : Says t p) (target : TargetDecl) :
    target.add source t =
      (target.accept (lineOf source p.1) p.2).mapError PlacedError.refusal := by
  cases h with
  | comment hk | yield hk | command hk | python hk => simp only [add, hk]; rfl
  | help hk =>
    simp only [add, hk, accept]
    split <;> rfl
  | assign hk hvalue he => simp only [add, hk, ParseTree.assignment, hvalue, he source]; rfl
  | arg hk =>
    rcases hk with hk | hk
    · simp only [add, hk, accept]
      split <;> rfl
    · simp only [add, hk, accept]
      split <;> rfl
  | exit hk hcode => simp only [add, hk, hcode source]; rfl
  | oneLine hk | block hk => simp only [add, hk]; rfl

/-- A target with a body in braces. -/
theorem TargetDecl.ofTree_eq {body : ParseTree} {ps : List Placed} (hk : t.kind = .targetBlock)
    (hbody : t.inner[1]? = some body) (hps : List.Forall₂ Says body.inner ps) :
    ofTree source t = (ofPhrases source (String.ofList t.inside) (t.line source) ps).mapError
      PlacedError.refusal := by
  simp only [ofTree, hbody, hk, reduceCtorEq, if_false]
  exact foldlM_mapError _ hps (fun target _ _ h => add_eq h target) _

theorem Script.add_eq (h : Says t p) (script : Script) :
    script.add source t =
      (script.accept source (lineOf source p.1) p.2).mapError PlacedError.refusal := by
  cases h with
  | comment hk | yield hk | command hk | python hk | exit hk => simp only [add, hk]; rfl
  | help hk =>
    simp only [add, hk, accept]
    split <;> rfl
  | assign hk hvalue he => simp only [add, hk, ParseTree.assignment, hvalue, he source]; rfl
  | arg hk => rcases hk with hk | hk <;> simp only [add, hk] <;> rfl
  | oneLine hk hcommand => simp only [add, hk, TargetDecl.ofTree, hcommand]; rfl
  | @block t body ps hk hbody hps =>
    simp only [add, hk, TargetDecl.ofTree_eq hk hbody hps, accept, ParseTree.line]
    cases TargetDecl.ofPhrases source (String.ofList t.inside) (lineOf source t.start) ps <;> rfl

/-- **To build a script from its trees is to put its phrases in their places.** -/
theorem Script.ofTree_eq {body : ParseTree} {ps : List Placed}
    (h : List.Forall₂ Says body.inner ps) :
    ofTree source body = (ofPhrases source ps).mapError PlacedError.refusal :=
  foldlM_mapError _ h (fun script _ _ h => add_eq h script) _

end

/-! ## Reading by phrases -/

namespace Script

variable {source : String} {filename : Option String}

theorem parse_of_trees_none (h : trees? source.toList = none) : parse source filename =
    .error ((Diagnostic.unreadable source (furthest source.toList)).withFilename filename) := by
  unfold parse
  rw [h]

theorem parse_of_trees {trees : List ParseTree} {body : ParseTree}
    (h : trees? source.toList = some trees) (hbody : bodyOf? trees = some body) :
    parse source filename = (ofTree source.toList body).mapError
      fun e => (Diagnostic.refused source e).withFilename filename := by
  unfold parse
  rw [h]
  dsimp only
  rw [hbody]
  dsimp only
  cases ofTree source.toList body <;> rfl

theorem parse_of_phrases_none (h : phrases? source.toList = none) : parse source filename =
    .error ((Diagnostic.unreadable source (furthest source.toList)).withFilename filename) := by
  rcases trees?_phrases? source.toList with ⟨htrees, -⟩ | ⟨_, _, ps, -, -, hps, -⟩
  · exact parse_of_trees_none htrees
  · simp [h] at hps

/-- **A script is read by its phrases.** -/
theorem parse_of_phrases {ps : List Placed} (h : phrases? source.toList = some ps) :
    parse source filename = (ofPhrases source.toList ps).mapError
      fun e => (Diagnostic.misplaced source e).withFilename filename := by
  rcases trees?_phrases? source.toList with ⟨-, hps⟩ | ⟨trees, body, _, htrees, hbody, hps, hsay⟩
  · simp [h] at hps
  · obtain rfl := Option.some.inj (h.symm.trans hps)
    rw [parse_of_trees htrees hbody, ofTree_eq hsay]
    cases ofPhrases source.toList ps <;> rfl

end Script

end TaskRunner
