import TaskRunner.Proofs.PhraseTrees

/-!
# A printed script is read back

A scope is read line by line (`lines_inside`, `lines_outside`): what is known of each of its entries
is that it is read as one phrase up to the end of its line (`Entry.Read`). The phrases are then put
in their places in the order of the text, and each with the line that it stands on
(`ofPhrases_placed`). `Script.parse_print` puts the two together.
-/
namespace TaskRunner

open Grammar
open Text (StopsAt)

/-! ## Entries of a scope -/

/-- One statement of a scope: its text, and the phrase it is read as where a given text is left
behind it. -/
structure Entry where
  text : List Char
  phrase : List Char → Phrase

namespace Entry

/-- The text of a scope, one entry to a line. -/
def print (es : List Entry) : List Char := printLines (es.map Entry.text)

/-- The phrases of a scope in front of `tail`, each with the text from its start on. -/
def placed : List Entry → List Char → List Placed
  | [], _ => []
  | e :: es, tail =>
    (e.text ++ '\n' :: (print es ++ tail), e.phrase ('\n' :: (print es ++ tail))) :: placed es tail

/-- The entry is read as one line, up to its line feed. -/
def Read (expr : Parser Expr) (body : Parser (List Placed)) (e : Entry) : Prop :=
  ∀ rest, (Parser.line expr body).run (e.text ++ '\n' :: rest) =
    some ([(e.text ++ '\n' :: rest, e.phrase ('\n' :: rest))], '\n' :: rest)

theorem print_cons (e : Entry) (es : List Entry) :
    print (e :: es) = e.text ++ '\n' :: print es := by
  simp [print, printLines]

theorem print_append (es es' : List Entry) : print (es ++ es') = print es ++ print es' := by
  simp [print, printLines]

theorem length_le_print {es : List Entry} {e : Entry} (h : e ∈ es) :
    e.text.length ≤ (print es).length := by
  induction es with
  | nil => cases h
  | cons e' es ih =>
    rw [print_cons, List.length_append, List.length_cons]
    rcases List.mem_cons.1 h with rfl | h
    · omega
    · have := ih h
      omega

theorem placed_append (es es' : List Entry) (tail : List Char) :
    placed (es ++ es') tail = placed es (print es' ++ tail) ++ placed es' tail := by
  induction es with
  | nil => rfl
  | cons e es ih => simp [placed, ih, print_append]

end Entry

/-! ## Reading a scope -/

namespace Grammar.Parser

variable {expr : Parser Expr} {body : Parser (List Placed)} {es : List Entry} {tail : List Char}

/-- Where a scope ends: at its closing brace, or at the end of the text. -/
def ScopeEnd (tail : List Char) : Prop :=
  tail = [] ∨ ∃ rest, tail = '\x7d' :: rest

theorem ScopeEnd.stopsAt (h : ScopeEnd tail) {p : Char → Bool} (hp : p '\x7d' = false) :
    StopsAt p tail := by
  rcases h with rfl | ⟨rest, rfl⟩
  · exact Text.stopsAt_nil
  · exact Text.stopsAt_cons.2 hp

theorem ScopeEnd.line_eq_none (h : ScopeEnd tail) : (line expr body).run tail = none :=
  Parser.line_eq_none (h.stopsAt (by decide)) (h.stopsAt (by decide))

theorem ScopeEnd.nextLine_eq_none (h : ScopeEnd tail) : (nextLine expr body).run tail = none := by
  rcases h with rfl | ⟨rest, rfl⟩
  · simp [nextLine, lineEnd, Token.lineEnd]
  · simp [nextLine, lineEnd, isGap, Token.lineEnd]

/-- No line starts with a blank. -/
theorem stopsAt_gap_of_line {s : List Char} {x : List Placed × List Char}
    (h : (line expr body).run s = some x) : StopsAt isGap s := by
  intro c hc
  by_contra hg
  obtain ⟨w, rfl⟩ := List.head?_eq_some_iff.1 hc
  have hitem : isItemStart c = false := eq_false_of_isGap (by simpa using hg) rfl rfl
  have hnote : (c == '#') = false :=
    @eq_false_of_isGap (· == '#') c (by simpa using hg) rfl rfl
  rw [line_eq_none (Text.stopsAt_cons.2 hitem) (Text.stopsAt_cons.2 hnote)] at h
  cases h

/-- Behind the first line feed, each line holds an entry and the last one nothing. -/
theorem runs_nextLine (hes : ∀ e ∈ es, e.Read expr body) (htail : ScopeEnd tail) :
    Runs (nextLine expr body) ('\n' :: (Entry.print es ++ tail))
      ((Entry.placed es tail).map (fun p => some [p]) ++ [none]) tail := by
  induction es with
  | nil =>
    have hgap : tail.dropWhile isGap = tail :=
      Text.dropWhile_of_stopsAt (htail.stopsAt (by decide))
    have hstep : (nextLine expr body).run ('\n' :: tail) = some (none, tail) := by
      have hnone : (line expr body).run tail = none := htail.line_eq_none
      simp [nextLine, isGap, lineEnd, Token.lineEnd, hgap, run_optional_none hnone]
    refine .step hstep ?_ (.done htail.nextLine_eq_none)
    rw [Text.dropWhile_of_stopsAt (Text.stopsAt_cons.2 (by decide))]
    exact Nat.lt_succ_self _
  | cons e es ih =>
    have hread := hes e (by simp) (Entry.print es ++ tail)
    have hgap := Text.dropWhile_of_stopsAt (stopsAt_gap_of_line hread)
    have hstep : (nextLine expr body).run
        ('\n' :: (e.text ++ '\n' :: (Entry.print es ++ tail))) =
        some (some [(e.text ++ '\n' :: (Entry.print es ++ tail),
          e.phrase ('\n' :: (Entry.print es ++ tail)))], '\n' :: (Entry.print es ++ tail)) := by
      simp [nextLine, isGap, lineEnd, Token.lineEnd, hgap, run_optional_some hread]
    have hrest := ih fun e' he' => hes e' (by simp [he'])
    rw [Entry.print_cons, List.append_assoc, List.cons_append]
    refine .step hstep ?_ hrest
    rw [Text.dropWhile_of_stopsAt (Text.stopsAt_cons.2 (by decide))]
    simp only [List.length_cons, List.length_append]
    omega

theorem flatMap_getD_some (ps : List Placed) :
    (ps.map fun p => some [p]).flatMap (fun o : Option (List Placed) => o.getD []) = ps := by
  rw [List.flatMap_map]
  exact List.flatMap_singleton' ps

/-- The inside of a target starts with the line feed behind its brace. -/
theorem lines_inside (hes : ∀ e ∈ es, e.Read expr body) (htail : ScopeEnd tail) :
    (lines expr body).run ('\n' :: (Entry.print es ++ tail)) =
      some (Entry.placed es tail, tail) := by
  have hfirst : (line expr body).run ('\n' :: (Entry.print es ++ tail)) = none :=
    line_eq_none (Text.stopsAt_cons.2 (by decide)) (Text.stopsAt_cons.2 (by decide))
  have hmany := (runs_nextLine hes htail).run_many
  simp [lines, isGap, run_optional_none hfirst, hmany, flatMap_getD_some]

/-- The top level starts with its first entry. -/
theorem lines_outside (hes : ∀ e ∈ es, e.Read expr body) :
    (lines expr body).run (Entry.print es) = some (Entry.placed es [], []) := by
  have hend : ScopeEnd [] := .inl rfl
  cases es with
  | nil =>
    have hfirst : (line expr body).run [] = none := hend.line_eq_none
    have hmany : (many (nextLine expr body)).run [] = some ([], []) :=
      (Runs.done hend.nextLine_eq_none).run_many
    simp [lines, Entry.print, printLines, run_optional_none hfirst, hmany, Entry.placed]
  | cons e es =>
    have hfirst := hes e (by simp) (Entry.print es)
    have hgap := Text.dropWhile_of_stopsAt (stopsAt_gap_of_line hfirst)
    have hrest : ∀ e' ∈ es, e'.Read expr body := fun e' he' => hes e' (by simp [he'])
    have hmany := (runs_nextLine hrest hend).run_many
    rw [List.append_nil] at hmany
    simp [lines, Entry.print_cons, hgap, run_optional_some hfirst, hmany, flatMap_getD_some,
      Entry.placed]

end Grammar.Parser

/-! ## The entries of a script -/

def helpEntries : Option String → List Entry
  | none => []
  | some text =>
    [⟨['@', '@', '@', '\n'] ++ text.toList ++ ['\n', '@', '@', '@'], fun _ => .help text⟩]

def Statement.entry (s : Statement) : Entry := ⟨s.print, fun _ => s.phrase⟩

def TargetDecl.entries (t : TargetDecl) : List Entry :=
  helpEntries t.help ++ t.body.map Statement.entry

/-- The phrase that an item is written as. The inside of a target is placed by what follows it. -/
def Item.phrase : Item → List Char → Phrase
  | .comment text, _ => .comment text
  | .assign a, _ => .assign a.name a.value
  | .target t, rest => .block t.name (Entry.placed t.entries ('\x7d' :: rest))

def Item.entry (item : Item) : Entry := ⟨item.print, item.phrase⟩

def Script.entries (s : Script) : List Entry := helpEntries s.help ++ s.items.map Item.entry

theorem print_helpEntries (help : Option String) :
    Entry.print (helpEntries help) = printLines (helpLines help) := by
  cases help <;> rfl

theorem print_statements (ss : List Statement) :
    Entry.print (ss.map Statement.entry) = printLines (ss.map Statement.print) := by
  simp [Entry.print, Statement.entry, Function.comp_def]

theorem print_items (items : List Item) :
    Entry.print (items.map Item.entry) = printLines (items.map Item.print) := by
  simp [Entry.print, Item.entry, Function.comp_def]

theorem printLines_append (ls ls' : List (List Char)) :
    printLines (ls ++ ls') = printLines ls ++ printLines ls' := by
  simp [printLines]

theorem TargetDecl.print_eq (t : TargetDecl) :
    t.print = t.name.toList ++ ' ' :: '\x7b' :: '\n' :: (Entry.print t.entries ++ ['\x7d']) := by
  rw [entries, Entry.print_append, print_helpEntries, print_statements, ← printLines_append]
  rfl

theorem Script.print_eq (s : Script) : s.print = Entry.print s.entries := by
  rw [entries, Entry.print_append, print_helpEntries, print_items, ← printLines_append]
  rfl

namespace Grammar.Parser

variable {expr : Parser Expr} {depth : Nat}

theorem read_helpEntries {help : Option String} (h : IsHelp help) {body : Parser (List Placed)} :
    ∀ e ∈ helpEntries help, e.Read expr body := by
  intro e he rest
  cases help with
  | none => cases he
  | some text =>
    obtain rfl := List.mem_singleton.1 he
    exact line_of_item (item_help (h text rfl))

theorem read_statement {s : Statement} (h : s.Printable) (hlen : s.print.length ≤ depth)
    {body : Parser (List Placed)} : s.entry.Read (nested depth) body :=
  line_statement h hlen

/-- A target is read if the depth allows for as many brackets as its text has characters. -/
theorem read_target {t : TargetDecl} (h : t.Printable) (hlen : t.print.length ≤ depth) :
    (Item.target t).entry.Read expr (delay fun _ => body depth) := by
  intro rest
  obtain ⟨depth, rfl⟩ : ∃ n, depth = n + 1 := by
    rw [TargetDecl.print_eq] at hlen
    exact ⟨depth - 1, by simp at hlen; omega⟩
  have hread : ∀ e ∈ t.entries, e.Read (nested (depth + 1)) (delay fun _ => body depth) := by
    intro e he
    have hle := Entry.length_le_print he
    rcases List.mem_append.1 he with he | he
    · exact read_helpEntries h.help e he
    · obtain ⟨s, hs, rfl⟩ := List.mem_map.1 he
      refine read_statement (h.body s hs) ?_
      rw [TargetDecl.print_eq] at hlen
      simp [Statement.entry] at hle hlen
      omega
  have hinside := lines_inside hread (.inr ⟨'\n' :: rest, rfl⟩)
  have hprint : t.print ++ '\n' :: rest = t.name.toList ++ ' ' :: '\x7b' :: '\n' ::
      (Entry.print t.entries ++ '\x7d' :: '\n' :: rest) := by
    simp [TargetDecl.print_eq]
  simp only [Item.entry, Item.print, Item.phrase, hprint]
  exact line_of_item (item_block h.name hinside)

theorem read_item {item : Item} (h : item.Printable) (hlen : item.print.length ≤ depth) :
    item.entry.Read (nested (depth + 1)) (delay fun _ => body depth) := by
  cases item with
  | comment text => exact fun rest => line_comment h
  | assign a =>
    intro rest
    simp only [Item.entry, Item.print, Item.phrase]
    exact line_of_item (item_assign h (Nat.le_succ_of_le hlen))
  | target t => exact read_target h hlen

/-- A script is read if the depth allows for as many brackets as its text has characters. -/
theorem run_script {s : Script} (h : s.Printable) (hlen : s.print.length ≤ depth) :
    (script (depth + 1)).run s.print = some (Entry.placed s.entries [], []) := by
  have hread : ∀ e ∈ s.entries, e.Read (nested (depth + 1)) (delay fun _ => body depth) := by
    intro e he
    have hle := Entry.length_le_print he
    rw [← Script.print_eq] at hle
    rcases List.mem_append.1 he with he | he
    · exact read_helpEntries h.help e he
    · obtain ⟨item, hitem, rfl⟩ := List.mem_map.1 he
      exact read_item (h.items item hitem) (hle.trans hlen)
  have hlines := lines_outside hread
  rw [← Script.print_eq] at hlines
  have hbody : (body (depth + 1)).run (s.print.dropWhile isGap) =
      some (Entry.placed s.entries [], []) := by
    have hgap := Text.dropWhile_of_stopsAt (Text.stopsAt_dropWhile isGap s.print)
    rw [← hlines]
    simp [body, lines, nested, hgap]
  have hend : endOfInput.run [] = some ((), []) := rfl
  simp only [script, run_named, run_bind, run_gap, Option.bind_some, hbody, List.dropWhile_nil,
    hend, run_pure]

/-- The phrases of a printed script are its entries. -/
theorem phrases?_print {s : Script} (h : s.Printable) :
    phrases? s.print = some (Entry.placed s.entries []) := by
  rw [phrases?, run_script h (Nat.le_refl _), Option.map_some]

end Grammar.Parser

/-! ## Phrases in their places -/

theorem lineOf_append (before rest : List Char) :
    lineOf (before ++ rest) rest = Text.lineNumber before := by
  simp [lineOf, Text.lineNumber]

/-- Names that differ: the next one is new, and it differs from those behind it. -/
theorem nodup_filterMap_cons {α β : Type} {f : α → Option β} {name : β → String} {xs : List β}
    {a : α} {as : List α} (h : ((xs ++ (a :: as).filterMap f).map name).Nodup) :
    (∀ b ∈ f a, name b ∉ xs.map name) ∧
      ((xs ++ (f a).toList ++ as.filterMap f).map name).Nodup := by
  cases hf : f a with
  | none => simpa [hf] using h
  | some b =>
    rw [List.filterMap_cons_some hf] at h
    refine ⟨?_, by simpa using h⟩
    intro c hc hmem
    obtain rfl := Option.mem_some_iff.1 hc
    rw [List.map_append, List.map_cons] at h
    exact (List.nodup_append.1 h).2.2 _ hmem _ (by simp) rfl

theorem Statement.arg?_onLine (s : Statement) (line : Nat) : (s.onLine line).arg? = s.arg? := by
  cases s <;> rfl

namespace TargetDecl

theorem accept_phrase {t : TargetDecl} {s : Statement} (line : Nat)
    (h : ∀ a ∈ s.arg?, a.name ∉ t.args.map ArgDecl.name) :
    t.accept line s.phrase = .ok (t.push (s.onLine line)) := by
  cases s with
  | arg a =>
    have hnew : ¬ t.args.any (·.name == a.name) = true := mt any_name_iff.1 (h a rfl)
    simp [accept, Statement.phrase, Statement.onLine, hnew]
  | _ => rfl

/-- The statements of a body are added one by one, each with its line. -/
theorem foldlM_accept {source tail : List Char} : ∀ (ss : List Statement) (before : List Char)
    (t : TargetDecl), ((t.args ++ ss.filterMap Statement.arg?).map ArgDecl.name).Nodup →
    source = before ++ (Entry.print (ss.map Statement.entry) ++ tail) →
    (Entry.placed (ss.map Statement.entry) tail).foldlM
      (fun t p => t.accept (lineOf source p.1) p.2) t =
      .ok { t with body := t.body ++ locateBody before ss }
  | [], before, t, _, _ => by
    show Except.ok t = _
    simp [locateBody]
  | s :: ss, before, t, hargs, hsource => by
    have hprint : source =
        before ++ (s.print ++ '\n' :: (Entry.print (ss.map Statement.entry) ++ tail)) := by
      simpa [Entry.print_cons, Statement.entry] using hsource
    have hline : lineOf source (s.print ++ '\n' :: (Entry.print (ss.map Statement.entry) ++ tail)) =
        Text.lineNumber before := by
      rw [hprint, lineOf_append]
    obtain ⟨hfresh, hothers⟩ := nodup_filterMap_cons hargs
    have hrest := foldlM_accept ss (before ++ (s.print ++ ['\n']))
      (t.push (s.onLine (Text.lineNumber before)))
      (by rwa [args_push, Statement.arg?_onLine]) (by simpa using hprint)
    rw [List.map_cons, Entry.placed, List.foldlM_cons]
    show (t.accept (lineOf source (s.print ++ _)) s.phrase >>= _) = _
    rw [hline, accept_phrase _ hfresh]
    show (Entry.placed _ tail).foldlM _ (t.push _) = _
    rw [hrest]
    simp [push, locateBody]

/-- The phrases of a printed target make up that target, with its lines. -/
theorem ofPhrases_placed {source before after : List Char} {t : TargetDecl}
    (hargs : (t.args.map ArgDecl.name).Nodup) (hsource : source = before ++ (t.print ++ after)) :
    ofPhrases source t.name (Text.lineNumber before) (Entry.placed t.entries ('\x7d' :: after)) =
      .ok (t.locate before) := by
  obtain ⟨name, help, body, line⟩ := t
  -- from whatever target is there once the help has been read
  have hbody : ∀ init : TargetDecl, init.args = [] →
      (Entry.placed (body.map Statement.entry) ('\x7d' :: after)).foldlM
        (fun t p => t.accept (lineOf source p.1) p.2) init =
      .ok { init with
        body := init.body ++ locateBody (before ++ (name.toList ++ ' ' :: '\x7b' :: '\n' ::
          printLines (helpLines help))) body } := by
    intro init hinit
    refine foldlM_accept body _ init (by rw [hinit]; exact hargs) ?_
    rw [hsource, print_eq]
    simp [entries, Entry.print_append, print_helpEntries]
  rw [ofPhrases, entries, Entry.placed_append]
  cases help with
  | none => exact hbody ⟨name, none, [], Text.lineNumber before⟩ rfl
  | some text => exact hbody ⟨name, some text, [], Text.lineNumber before⟩ rfl

end TargetDecl

/-- A target keeps its name when its lines are filled in. -/
theorem Item.name_target?_locate (item : Item) (before : List Char) :
    (item.locate before).target?.toList.map TargetDecl.name =
      item.target?.toList.map TargetDecl.name := by
  cases item <;> rfl

namespace Script

theorem accept_item {source before after : List Char} {s : Script} {item : Item}
    (h : item.Printable) (hsource : source = before ++ (item.print ++ after))
    (hnew : ∀ t ∈ item.target?, t.name ∉ s.targets.map TargetDecl.name) :
    s.accept source (Text.lineNumber before) (item.phrase after) =
      .ok (s.push (item.locate before)) := by
  cases item with
  | comment text => rfl
  | assign a => rfl
  | target t =>
    have hplaced := TargetDecl.ofPhrases_placed h.args hsource
    have hany : ¬ s.targets.any (·.name == t.name) = true := mt any_name_iff.1 (hnew t rfl)
    have hadd : s.addTarget (t.locate before) = .ok (s.push (.target (t.locate before))) :=
      if_neg (by simpa [TargetDecl.locate] using hany)
    simp only [accept, Item.phrase, hplaced, hadd, Item.locate]

/-- The items of a script are added one by one, each with its line. -/
theorem foldlM_accept {source : List Char} : ∀ (items : List Item) (before : List Char)
    (s : Script),
    (∀ item ∈ items, item.Printable) →
    ((s.targets ++ items.filterMap Item.target?).map TargetDecl.name).Nodup →
    source = before ++ Entry.print (items.map Item.entry) →
    (Entry.placed (items.map Item.entry) []).foldlM
      (fun s p => s.accept source (lineOf source p.1) p.2) s =
      .ok { s with items := s.items ++ locateItems before items }
  | [], before, s, _, _, _ => by
    show Except.ok s = _
    simp [locateItems]
  | item :: items, before, s, hitems, hnames, hsource => by
    have hprint : source =
        before ++ (item.print ++ '\n' :: Entry.print (items.map Item.entry)) := by
      simpa [Entry.print_cons, Item.entry] using hsource
    have hline : lineOf source (item.print ++ '\n' :: Entry.print (items.map Item.entry)) =
        Text.lineNumber before := by
      rw [hprint, lineOf_append]
    obtain ⟨hnew, hothers⟩ := nodup_filterMap_cons hnames
    have haccept := accept_item (hitems item (by simp)) hprint hnew
    have hrest := foldlM_accept items (before ++ (item.print ++ ['\n']))
      (s.push (item.locate before)) (fun i hi => hitems i (by simp [hi]))
      (by
        rw [targets_push]
        simpa [Item.name_target?_locate] using hothers)
      (by simpa using hprint)
    rw [List.map_cons, Entry.placed, List.foldlM_cons]
    show (s.accept source (lineOf source (item.print ++ '\n' :: (Entry.print _ ++ [])))
      (item.phrase ('\n' :: (Entry.print _ ++ []))) >>= _) = _
    rw [List.append_nil, hline, haccept]
    show (Entry.placed _ []).foldlM _ (s.push _) = _
    rw [hrest]
    simp [push, locateItems]

theorem ofPhrases_placed {s : Script} (h : s.Printable) :
    ofPhrases s.print (Entry.placed s.entries []) = .ok s.located := by
  obtain ⟨help, items⟩ := s
  have hitems : ∀ init : Script, init.targets = [] →
      (Entry.placed (items.map Item.entry) []).foldlM
        (fun s p => s.accept (Script.mk help items).print
          (lineOf (Script.mk help items).print p.1) p.2) init =
      .ok { init with items := init.items ++ locateItems (printLines (helpLines help)) items } := by
    intro init hinit
    refine foldlM_accept items _ init h.items (by rw [hinit]; exact h.targets) ?_
    rw [print_eq, entries, Entry.print_append, print_helpEntries]
  rw [ofPhrases, entries, Entry.placed_append]
  cases help with
  | none => exact hitems ⟨none, []⟩ rfl
  | some text => exact hitems ⟨some text, []⟩ rfl

/-- **A printed script is read back** as the same script, with the line of each statement: one more
than the line feeds before it. -/
theorem parse_print {s : Script} (h : s.Printable) (filename : Option String) :
    Script.parse (String.ofList s.print) filename = .ok s.located := by
  have hphrases : Grammar.phrases? (String.ofList s.print).toList =
      some (Entry.placed s.entries []) := by
    rw [String.toList_ofList]
    exact Grammar.Parser.phrases?_print h
  rw [parse_of_phrases hphrases, String.toList_ofList, ofPhrases_placed h]
  rfl

/-- A script with the characters and words of the grammar where they mean something else. -/
def sample : Script where
  help := some "Builds \"it\"\nin two steps"
  items := [
    .comment " tools",
    .assign ⟨"exit_level", .binary .mul (.number (Number.ofDecimal ['2'] ['5']))
      (.binary .sub (.negate (.var "exit")) (.number (Number.ofDecimal ['1'] []))), 2⟩,
    .target ⟨"yields", some "@@ says \\ nothing", [
      .arg ⟨"file", true, some "the \"file\"\nor a\\path"⟩,
      .arg ⟨"mode", false, none⟩,
      .command "cc \"$file\" # no comment" 0,
      .assign ⟨"note", .binary .add (.text "one\ntwo \\") (.var "yield"), 0⟩,
      .yield,
      .python "print(1)" 0,
      .exit (some (.binary .rem (.var "note") (.number (Number.ofDecimal ['7'] [])))) 0], 0⟩,
    .target ⟨"last", none, [.exit none 0], 0⟩]

theorem parse_print_sample : sample.Printable ∧
    Script.parse (String.ofList sample.print) none = .ok sample.located := by
  have h : sample.Printable := by decide +kernel
  exact ⟨h, parse_print h none⟩

end Script

end TaskRunner
