import TaskRunner.Proofs.Printing

/-!
# A printed statement is read back

The parser tries the kinds of phrases in a fixed order and stays with the first that fits. So for
each kind of statement it is shown that the kinds before it do not fit: by its first character, or,
where it starts with a name, because that name is not a reserved word (`item_of_name`). What does
fit ends where the line ends (`line_statement`).
-/
namespace TaskRunner

open Grammar
open Text (StopsAt)

/-! ## Expressions -/

theorem Grammar.Blanks.single : Blanks [' '] := by simp [Blanks, isGap]

theorem Grammar.Blanks.nil : Blanks [] := by simp [Blanks]

theorem Grammar.Spells.lift {t : List Char} {e : Expr} (h : Spells .primary t e) :
    Spells .term t e ∧ Spells .sum t e :=
  ⟨.term (.factor h), .sum (.term (.factor h))⟩

namespace Expr

theorem spells_bracket {e : Expr} {t : List Char}
    (h : Spells .sum t e ∧ (e.isCompound = false → Spells .primary t e)) :
    Spells .primary (bracket e.isCompound t) e := by
  unfold bracket
  cases hc : e.isCompound with
  | true => simpa using Spells.paren .nil .nil h.1
  | false => simpa using h.2 hc

/-- A printed expression is a spelling of it, and one that is not compound may be an operand. -/
theorem spells_print : ∀ {e : Expr}, e.Printable →
    Spells .sum e.print e ∧ (e.isCompound = false → Spells .primary e.print e)
  | .number x, h => ⟨(Spells.number h).lift.2, fun _ => .number h⟩
  | .text s, _ => ⟨(Spells.text s).lift.2, fun _ => .text s⟩
  | .var name, h => ⟨(Spells.var h).lift.2, fun _ => .var h⟩
  | .negate e, h => by
    have hoperand := spells_bracket (spells_print (e := e) h)
    refine ⟨.sum (.term ?_), fun hc => by cases hc⟩
    simpa [print] using Spells.negate .nil hoperand
  | .binary op l r, h => by
    have hl := spells_bracket (spells_print h.1)
    have hr := spells_bracket (spells_print h.2)
    refine ⟨?_, fun hc => by cases hc⟩
    cases ho : op.isSum with
    | true => exact .addition ho .single .single hl.lift.2 hr.lift.1
    | false => exact .sum (.product ho .single .single hl.lift.1 (.factor hr))

end Expr

namespace Grammar.Parser

/-! ## Phrases -/

variable {expr : Parser Expr} {body : Parser (List Placed)} {rest : List Char}

theorem run_item (expr : Parser Expr) (body : Parser (List Placed)) (s : List Char) :
    (item expr body).run s =
      (helpBlock.run s).or ((commandLine.run s).or ((pythonLine.run s).or
        ((requiredArg.run s).or ((optionalArg.run s).or (((exit expr).run s).or
          ((yield.run s).or (((targetBlock body).run s).or ((targetLine.run s).or
            ((assignment expr).run s))))))))) := by
  simp only [item, firstOf, run_orElse]

theorem run_word_of_stopsAt {c : Char} {w s : List Char} (h : StopsAt (· == c) s) :
    (word (c :: w)).run s = none := by
  cases s with
  | nil => exact run_word_nil c w
  | cons d s =>
    have hd : d ≠ c := by simpa using h
    simp [word, Ne.symm hd]

theorem helpBlock_eq_none {s : List Char} (h : StopsAt (· == '@') s) : helpBlock.run s = none := by
  have : Token.helpBlock s = none := by
    unfold Token.helpBlock
    split
    · simp at h
    · rfl
  simp [helpBlock, this]

theorem commandLine_eq_none {s : List Char} (h : StopsAt (· == '$') s) :
    commandLine.run s = none := by
  simp [commandLine, run_word_of_stopsAt h]

theorem pythonLine_eq_none {s : List Char} (h : StopsAt (· == '>') s) :
    pythonLine.run s = none := by
  simp [pythonLine, run_word_of_stopsAt h]

theorem declaration_eq_none {s : List Char} {opening : Char} (h : StopsAt (· == opening) s)
    (closing : Char) (required : Bool) : (declaration opening closing required).run s = none := by
  simp [declaration, run_word_of_stopsAt h]

theorem exit_eq_none {s : List Char} (h : Token.keyword ['e', 'x', 'i', 't'] s = none) :
    (exit expr).run s = none := by
  simp [exit, h]

theorem yield_eq_none {s : List Char} (h : Token.keyword ['y', 'i', 'e', 'l', 'd'] s = none) :
    yield.run s = none := by
  simp [yield, h]

theorem identifier_eq_none {s : List Char} (h : StopsAt isLetter s) : identifier.run s = none := by
  simp [identifier, Token.name_eq_none h]

theorem targetBlock_eq_none {s : List Char} (h : StopsAt isLetter s) :
    (targetBlock body).run s = none := by
  simp [targetBlock, identifier_eq_none h]

theorem targetLine_eq_none {s : List Char} (h : StopsAt isLetter s) : targetLine.run s = none := by
  simp [targetLine, identifier_eq_none h]

theorem assignment_eq_none {s : List Char} (h : StopsAt isLetter s) :
    (assignment expr).run s = none := by
  simp [assignment, identifier_eq_none h]

theorem item_help {text : String} (h : ¬ ['@', '@', '@'] <:+: text.toList) :
    (item expr body).run
        (['@', '@', '@', '\n'] ++ text.toList ++ ['\n', '@', '@', '@'] ++ rest) =
      some (.help text, rest) := by
  have hhelp : helpBlock.run
      (['@', '@', '@', '\n'] ++ text.toList ++ ['\n', '@', '@', '@'] ++ rest) =
      some (.help text, rest) := by
    simp only [helpBlock, run_named, run_map, run_silent, Token.helpBlock_append h, Option.map_some]
  rw [run_item, hhelp]
  rfl

theorem trim_template {template : String} (h : IsTemplate template) :
    Text.trim template.toList = template.toList := by
  rw [Text.trim, Text.trimStart, Text.dropWhile_of_stopsAt h.2.1, Text.trimEnd,
    Text.dropWhile_of_stopsAt h.2.2, List.reverse_reverse]

theorem isBlank_of_isGap {c : Char} (h : isGap c = true) : Text.isBlank c = true := by
  rcases isGap_iff.1 h with rfl | rfl <;> rfl

/-- A template is what is left of its line behind the blank that sets it off. -/
theorem run_commandText {template : String} (h : IsTemplate template) :
    commandText.run (' ' :: (template.toList ++ '\n' :: rest)) = some (template, '\n' :: rest) := by
  have hgap : StopsAt isGap (template.toList ++ '\n' :: rest) := by
    intro c hc
    cases ht : template.toList with
    | nil => rw [ht] at hc; cases hc; rfl
    | cons d t =>
      rw [ht] at hc
      cases hc
      have hd := h.2.1 c (by simp [ht])
      by_contra hg
      rw [isBlank_of_isGap (by simpa using hg)] at hd
      cases hd
  have hline : Token.restOfLine (template.toList ++ '\n' :: rest) =
      (template.toList, '\n' :: rest) :=
    Token.restOfLine_append h.1 (by simp [isLineEnd])
  simp [commandText, restOfLine, isGap, Text.dropWhile_of_stopsAt hgap, hline, trim_template h]

theorem item_command {template : String} (h : IsTemplate template) :
    (item expr body).run ('$' :: ' ' :: (template.toList ++ '\n' :: rest)) =
      some (.command template, '\n' :: rest) := by
  have hcommand : commandLine.run ('$' :: ' ' :: (template.toList ++ '\n' :: rest)) =
      some (.command template, '\n' :: rest) := by
    simp [commandLine, run_word_cons, run_commandText h]
  rw [run_item, helpBlock_eq_none (by simp), hcommand]
  rfl

theorem item_python {template : String} (h : IsTemplate template) :
    (item expr body).run ('>' :: '>' :: '>' :: ' ' :: (template.toList ++ '\n' :: rest)) =
      some (.python template, '\n' :: rest) := by
  have hpython : pythonLine.run ('>' :: '>' :: '>' :: ' ' :: (template.toList ++ '\n' :: rest)) =
      some (.python template, '\n' :: rest) := by
    have hword := run_word ['>', '>', '>'] (' ' :: (template.toList ++ '\n' :: rest))
    simp only [List.cons_append, List.nil_append] at hword
    simp [pythonLine, hword, run_commandText h]
  rw [run_item, helpBlock_eq_none (by simp), commandLine_eq_none (by simp), hpython]
  rfl

theorem isGap_of_isLetter {c : Char} (h : isLetter c = true) : isGap c = false :=
  isGap_eq_false h (by decide) (by decide)

theorem run_identifier {name : String} (h : Token.IsName name) (hrest : StopsAt isNameChar rest) :
    identifier.run (name.toList ++ rest) = some (name, rest) := by
  simp [identifier, Token.name_append h hrest]

theorem run_quotedHelp (help : Option String) :
    (optional string).run ((quotedHelp help ++ '\n' :: rest).dropWhile isGap) =
      some (help, '\n' :: rest) := by
  cases help with
  | none =>
    have hnone : string.run ('\n' :: rest) = none := by
      simp [string, Token.string_eq_none]
    simpa [quotedHelp, isGap] using run_optional_none hnone
  | some text =>
    have hsome : string.run ('"' :: (Token.escape text.toList ++ '"' :: ('\n' :: rest))) =
        some (text, '\n' :: rest) := by
      simp [string, Token.string_append]
    simpa [quotedHelp, isGap] using run_optional_some hsome

theorem run_declaration {name : String} (h : Token.IsName name) {opening closing : Char}
    (hname : isNameChar closing = false) (hgap : isGap closing = false) (required : Bool)
    (help : Option String) :
    (declaration opening closing required).run
        (opening :: (name.toList ++ closing :: (quotedHelp help ++ '\n' :: rest))) =
      some (.arg ⟨name, required, help⟩, '\n' :: rest) := by
  have hstart : (name.toList ++ closing :: (quotedHelp help ++ '\n' :: rest)).dropWhile isGap =
      name.toList ++ closing :: (quotedHelp help ++ '\n' :: rest) :=
    Text.dropWhile_of_stopsAt (h.stopsAt (fun c => isGap_of_isLetter) _)
  have hid : identifier.run (name.toList ++ closing :: (quotedHelp help ++ '\n' :: rest)) =
      some (name, closing :: (quotedHelp help ++ '\n' :: rest)) :=
    run_identifier h (Text.stopsAt_cons.2 hname)
  simp [declaration, run_word_cons, hstart, hid, hgap, run_quotedHelp]

theorem item_arg {a : ArgDecl} (h : Token.IsName a.name) :
    (item expr body).run (a.print ++ '\n' :: rest) = some (.arg a, '\n' :: rest) := by
  obtain ⟨name, required, help⟩ := a
  cases required with
  | true =>
    have hprint : (ArgDecl.mk name true help).print ++ '\n' :: rest =
        '<' :: (name.toList ++ '>' :: (quotedHelp help ++ '\n' :: rest)) := by simp [ArgDecl.print]
    rw [hprint, run_item, helpBlock_eq_none (by simp), commandLine_eq_none (by simp),
      pythonLine_eq_none (by simp), requiredArg, run_named,
      run_declaration h (by decide) (by decide) true help]
    rfl
  | false =>
    have hprint : (ArgDecl.mk name false help).print ++ '\n' :: rest =
        '[' :: (name.toList ++ ']' :: (quotedHelp help ++ '\n' :: rest)) := by simp [ArgDecl.print]
    rw [hprint, run_item, helpBlock_eq_none (by simp), commandLine_eq_none (by simp),
      pythonLine_eq_none (by simp), requiredArg, run_named, declaration_eq_none (by simp),
      optionalArg, run_named, run_declaration h (by decide) (by decide) false help]
    rfl

/-! ## Statements that start with a letter -/

/-- The kinds of phrases that are tried first do not start with a letter. -/
theorem run_item_of_isLetter {c : Char} {w : List Char} (hc : isLetter c = true) :
    (item expr body).run (c :: w) =
      ((exit expr).run (c :: w)).or ((yield.run (c :: w)).or (((targetBlock body).run (c :: w)).or
        ((targetLine.run (c :: w)).or ((assignment expr).run (c :: w))))) := by
  have hother : ∀ d, isLetter d = false → StopsAt (· == d) (c :: w) :=
    fun d hd => Text.stopsAt_other hc hd
  rw [run_item, helpBlock_eq_none (hother _ (by decide)),
    commandLine_eq_none (hother _ (by decide)), pythonLine_eq_none (hother _ (by decide)),
    requiredArg, run_named,
    declaration_eq_none (hother _ (by decide)), optionalArg, run_named,
    declaration_eq_none (hother _ (by decide))]
  rfl

/-- A name that is not reserved starts a target or an assignment. -/
theorem item_of_name {name : String} (h : IsOwnName name) (hrest : StopsAt isNameChar rest) :
    (item expr body).run (name.toList ++ rest) =
      ((targetBlock body).run (name.toList ++ rest)).or
        ((targetLine.run (name.toList ++ rest)).or
          ((assignment expr).run (name.toList ++ rest))) := by
  have hexit : Token.keyword ['e', 'x', 'i', 't'] (name.toList ++ rest) = none := by
    refine Token.keyword_name (by decide) h.1 (fun he => h.2.1 ?_) hrest
    exact String.toList_inj.1 he
  have hyield : Token.keyword ['y', 'i', 'e', 'l', 'd'] (name.toList ++ rest) = none := by
    refine Token.keyword_name (by decide) h.1 (fun he => h.2.2 ?_) hrest
    exact String.toList_inj.1 he
  obtain ⟨c, w, hname, hc, -⟩ := h.1
  have hitem := @run_item_of_isLetter expr body c (w ++ rest) hc
  rw [← List.cons_append, ← hname, exit_eq_none hexit, yield_eq_none hyield] at hitem
  exact hitem

/-- A line end ends an expression. -/
theorem sumEnd_lineFeed (rest : List Char) : SumEnd ('\n' :: rest) :=
  ⟨⟨Text.stopsAt_cons.2 rfl, rfl⟩, rfl⟩

theorem run_nested_print {e : Expr} (h : e.Printable) {depth : Nat}
    (hlen : e.print.length ≤ depth) :
    (nested depth).run (e.print ++ '\n' :: rest) = some (e, '\n' :: rest) := by
  obtain ⟨r, hread, hr⟩ :=
    expression_of_spells (Expr.spells_print h).1 hlen _ (sumEnd_lineFeed rest)
  rw [nested, run_delay, hread, hr.eq_of_stopsAt (by simp [isGap])]

theorem print_stopsAt_gap {e : Expr} (h : e.Printable) : StopsAt isGap (e.print ++ rest) :=
  (Expr.spells_print h).1.stopsAt_gap rest

/-- A character that a factor may start with, the blanks before it included. -/
def isFactorStart (c : Char) : Bool := isPrimaryStart c || c == '-' || isGap c

/-- Nothing is read where no expression starts. -/
theorem expression_eq_none {s : List Char} (h : StopsAt isFactorStart s) (depth : Nat) :
    (expression depth).run s = none := by
  cases depth with
  | zero => rfl
  | succ depth =>
    have hstop : ∀ p : Char → Bool, (∀ c, p c = true → isFactorStart c = true) → StopsAt p s := by
      intro p hp c hc
      by_contra hpc
      have := h c hc
      rw [hp c (by simpa using hpc)] at this
      cases this
    have hprimary : (primary (delay fun _ => expression depth)).run s = none := by
      have hnumber : StopsAt Token.isNumberChar s := hstop _ fun c hc => by
        simp only [Token.isNumberChar, Bool.or_eq_true] at hc
        rcases hc with hc | hc <;> simp [isFactorStart, isPrimaryStart, hc]
      have hname : StopsAt isLetter s := hstop _ fun c hc => by
        simp [isFactorStart, isPrimaryStart, hc]
      rw [run_primary, Token.number_eq_none hnumber, Token.string_eq_none (h.char (by decide)),
        Token.name_eq_none hname]
      simp [parenthesised, run_word_of_stopsAt (h.char (d := '(') (by decide))]
    have hminus : (named .minus (word ['-'])).run s = none :=
      run_word_of_stopsAt (h.char (by decide))
    have hgap : s.dropWhile isGap = s :=
      Text.dropWhile_of_stopsAt (hstop _ fun c hc => by simp [isFactorStart, hc])
    simp [expression, sum, term, factor, run_optional_none hminus, hgap, hprimary]

theorem item_exit {code : Option Expr} (h : ∀ e ∈ code, e.Printable) {depth : Nat} {line : Nat}
    (hlen : (Statement.exit code line).print.length ≤ depth) :
    (item (nested depth) body).run ((Statement.exit code line).print ++ '\n' :: rest) =
      some (.exit code, '\n' :: rest) := by
  have hexit : (exit (nested depth)).run ((Statement.exit code line).print ++ '\n' :: rest) =
      some (.exit code, '\n' :: rest) := by
    cases code with
    | none =>
      have hword : Token.keyword ['e', 'x', 'i', 't'] ('e' :: 'x' :: 'i' :: 't' :: '\n' :: rest) =
          some ((), '\n' :: rest) :=
        Token.keyword_append (Text.stopsAt_cons.2 (by decide))
      have hnone : (nested depth).run ('\n' :: rest) = none :=
        expression_eq_none (Text.stopsAt_cons.2 (by decide)) depth
      simp [exit, Statement.print, hword, isGap, run_optional_none hnone]
    | some e =>
      have he := h e rfl
      have hword : Token.keyword ['e', 'x', 'i', 't']
          ('e' :: 'x' :: 'i' :: 't' :: ' ' :: (e.print ++ '\n' :: rest)) =
          some ((), ' ' :: (e.print ++ '\n' :: rest)) :=
        Token.keyword_append (Text.stopsAt_cons.2 (by decide))
      have hgap : (' ' :: (e.print ++ '\n' :: rest)).dropWhile isGap = e.print ++ '\n' :: rest :=
        Blanks.single.dropWhile_append (print_stopsAt_gap he)
      have hread : (nested depth).run (e.print ++ '\n' :: rest) = some (e, '\n' :: rest) :=
        run_nested_print he (by simp [Statement.print] at hlen; omega)
      simp only [exit, run_named, run_bind, run_silent, Statement.print, List.cons_append, hword,
        Option.bind_some, run_gap, run_map, hgap, run_optional_some hread, Option.map_some]
  have hstart : ∃ w, (Statement.exit code line).print ++ '\n' :: rest = 'e' :: w := by
    cases code <;> exact ⟨_, rfl⟩
  obtain ⟨w, hw⟩ := hstart
  rw [hw] at hexit ⊢
  rw [run_item_of_isLetter (by decide), hexit]
  rfl

theorem item_yield :
    (item expr body).run ('y' :: 'i' :: 'e' :: 'l' :: 'd' :: '\n' :: rest) =
      some (.yield, '\n' :: rest) := by
  have hyield : yield.run ('y' :: 'i' :: 'e' :: 'l' :: 'd' :: '\n' :: rest) =
      some (.yield, '\n' :: rest) := by
    have hword : Token.keyword ['y', 'i', 'e', 'l', 'd']
        ('y' :: 'i' :: 'e' :: 'l' :: 'd' :: '\n' :: rest) = some ((), '\n' :: rest) :=
      Token.keyword_append (Text.stopsAt_cons.2 (by decide))
    simp [yield, hword]
  have hexit : Token.keyword ['e', 'x', 'i', 't']
      ('y' :: 'i' :: 'e' :: 'l' :: 'd' :: '\n' :: rest) = none := by
    simp [Token.keyword]
  rw [run_item_of_isLetter (by decide), exit_eq_none hexit, hyield]
  rfl

/-! ## Assignments and targets -/

theorem item_assign {a : Assignment} (h : a.Printable) {depth : Nat}
    (hlen : a.print.length ≤ depth) :
    (item (nested depth) body).run (a.print ++ '\n' :: rest) =
      some (.assign a.name a.value, '\n' :: rest) := by
  have hprint : a.print ++ '\n' :: rest =
      a.name.toList ++ ' ' :: '=' :: ' ' :: (a.value.print ++ '\n' :: rest) := by
    simp [Assignment.print]
  have hid : identifier.run
      (a.name.toList ++ ' ' :: '=' :: ' ' :: (a.value.print ++ '\n' :: rest)) =
      some (a.name, ' ' :: '=' :: ' ' :: (a.value.print ++ '\n' :: rest)) :=
    run_identifier h.1.1 (Text.stopsAt_cons.2 (by decide))
  have hends : Runs (gap >>= fun _ => lineEnd) ('=' :: ' ' :: (a.value.print ++ '\n' :: rest)) []
      ('=' :: ' ' :: (a.value.print ++ '\n' :: rest)) :=
    .done (by simp [lineEnd, isGap, Token.lineEnd])
  have hblock : (targetBlock body).run
      (a.name.toList ++ ' ' :: '=' :: ' ' :: (a.value.print ++ '\n' :: rest)) = none := by
    simp [targetBlock, hid, isGap, hends.run_many, run_word_cons]
  have hline : targetLine.run
      (a.name.toList ++ ' ' :: '=' :: ' ' :: (a.value.print ++ '\n' :: rest)) = none := by
    simp [targetLine, hid, isGap, run_word_cons]
  have hvalue : (nested depth).run (a.value.print ++ '\n' :: rest) = some (a.value, '\n' :: rest) :=
    run_nested_print h.2 (by simp [Assignment.print] at hlen; omega)
  have hassign : (assignment (nested depth)).run
      (a.name.toList ++ ' ' :: '=' :: ' ' :: (a.value.print ++ '\n' :: rest)) =
      some (.assign a.name a.value, '\n' :: rest) := by
    simp [assignment, hid, isGap, run_word_cons, Text.dropWhile_of_stopsAt (print_stopsAt_gap h.2),
      hvalue]
  rw [hprint, item_of_name h.1 (Text.stopsAt_cons.2 (by decide)), hblock, hline, hassign]
  rfl

/-- A target is read if its body is. -/
theorem item_block {name : String} (h : IsOwnName name) {inside : List Char} {phrases : List Placed}
    (hbody : body.run ('\n' :: inside) = some (phrases, '\x7d' :: rest)) :
    (item expr body).run (name.toList ++ ' ' :: '\x7b' :: '\n' :: inside) =
      some (.block name phrases, rest) := by
  have hid : identifier.run (name.toList ++ ' ' :: '\x7b' :: '\n' :: inside) =
      some (name, ' ' :: '\x7b' :: '\n' :: inside) :=
    run_identifier h.1 (Text.stopsAt_cons.2 (by decide))
  have hends : Runs (gap >>= fun _ => lineEnd) ('\x7b' :: '\n' :: inside) []
      ('\x7b' :: '\n' :: inside) :=
    .done (by simp [lineEnd, isGap, Token.lineEnd])
  have hblock : (targetBlock body).run (name.toList ++ ' ' :: '\x7b' :: '\n' :: inside) =
      some (.block name phrases, rest) := by
    simp [targetBlock, hid, isGap, hends.run_many, run_word_cons, hbody]
  rw [item_of_name h (Text.stopsAt_cons.2 (by decide)), hblock]
  rfl

/-! ## Lines -/

/-- A character that some phrase starts with. -/
def isItemStart (c : Char) : Bool :=
  isLetter c || c == '@' || c == '$' || c == '>' || c == '<' || c == '['

theorem keyword_eq_none {c : Char} {w s : List Char} (h : StopsAt (· == c) s) :
    Token.keyword (c :: w) s = none := by
  cases s with
  | nil => rfl
  | cons d s =>
    have hd : d ≠ c := by simpa using h
    simp [Token.keyword, Ne.symm hd]

theorem item_eq_none {s : List Char} (h : StopsAt isItemStart s) :
    (item expr body).run s = none := by
  have hletter : StopsAt isLetter s := fun c hc => by
    have := h c hc
    simp_all [isItemStart]
  have hchar : ∀ d, isItemStart d = true → StopsAt (· == d) s := fun d hd => h.char hd
  rw [run_item, helpBlock_eq_none (hchar _ (by decide)), commandLine_eq_none (hchar _ (by decide)),
    pythonLine_eq_none (hchar _ (by decide)), requiredArg, run_named,
    declaration_eq_none (hchar _ (by decide)), optionalArg, run_named,
    declaration_eq_none (hchar _ (by decide)), exit_eq_none (keyword_eq_none (hchar _ (by decide))),
    yield_eq_none (keyword_eq_none (hchar _ (by decide))), targetBlock_eq_none hletter,
    targetLine_eq_none hletter, assignment_eq_none hletter]
  rfl

theorem comment_eq_none {s : List Char} (h : StopsAt (· == '#') s) : comment.run s = none := by
  have hnone : Token.comment s = none := by
    unfold Token.comment
    split
    · simp at h
    · rfl
  simp [comment, hnone]

/-- An item up to the end of its line is a line. -/
theorem line_of_item {s : List Char} {phrase : Phrase}
    (h : (item expr body).run s = some (phrase, '\n' :: rest)) :
    (line expr body).run s = some ([(s, phrase)], '\n' :: rest) := by
  have hnote : (placed (Phrase.comment <$> comment)).run ('\n' :: rest) = none := by
    simp [placed, comment_eq_none]
  have hplaced : (placed (item expr body)).run s = some ((s, phrase), '\n' :: rest) := by
    simp [placed, h]
  simp [line, hplaced, isGap, run_optional_none hnote]

theorem line_comment {text : String} (h : OneLine text) :
    (line expr body).run ('#' :: (text.toList ++ '\n' :: rest)) =
      some ([('#' :: (text.toList ++ '\n' :: rest), .comment text)], '\n' :: rest) := by
  have hitem : (item expr body).run ('#' :: (text.toList ++ '\n' :: rest)) = none :=
    item_eq_none (Text.stopsAt_cons.2 (by decide))
  have hcomment : Token.comment ('#' :: (text.toList ++ '\n' :: rest)) =
      some (text, '\n' :: rest) :=
    Token.comment_append h (by simp [isLineEnd])
  simp [line, placed, hitem, comment, hcomment]

/-- Nothing is read where neither a phrase nor a comment starts. -/
theorem line_eq_none {s : List Char} (h : StopsAt isItemStart s) (hnote : StopsAt (· == '#') s) :
    (line expr body).run s = none := by
  simp [line, placed, item_eq_none h, comment_eq_none hnote]

end Grammar.Parser

/-- The phrase that a statement is written as. -/
def Statement.phrase : Statement → Phrase
  | .comment text => .comment text
  | .assign a => .assign a.name a.value
  | .arg a => .arg a
  | .command template _ => .command template
  | .python template _ => .python template
  | .exit code _ => .exit code
  | .yield => .yield

/-- **A printed statement is read back**, as a line of its own. -/
theorem Grammar.Parser.line_statement {s : Statement} (h : s.Printable)
    {body : Parser (List Placed)} {depth : Nat} (hlen : s.print.length ≤ depth) (rest : List Char) :
    (line (nested depth) body).run (s.print ++ '\n' :: rest) =
      some ([(s.print ++ '\n' :: rest, s.phrase)], '\n' :: rest) := by
  cases s with
  | comment text => exact line_comment h
  | assign a => exact line_of_item (item_assign h hlen)
  | arg a => exact line_of_item (item_arg h)
  | command template line => exact line_of_item (item_command h)
  | python template line => exact line_of_item (item_python h)
  | exit code line => exact line_of_item (item_exit h hlen)
  | yield => exact line_of_item item_yield

end TaskRunner
