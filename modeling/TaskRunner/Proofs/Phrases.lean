import TaskRunner.Proofs.Recognition

/-!
# The phrases that a text starts with

The parser tries one kind of phrase after another. `Takes` has the same kinds without an order, and
the two agree (`run_item_iff`): which kind of phrase it is can be told from the first character, or
from what follows the first name, so no kind stands in the way of another. From this comes what
holds of all phrases of a script, wherever they stand (`phrases?_within`).
-/
namespace TaskRunner.Grammar

open Text (StopsAt)

namespace Parser

variable {s r : List Char}

/-! ## Phrases -/

variable {expr : Parser Expr} {body : Parser (List Placed)} {phrase : Phrase}

theorem commandText_shrinks : Shrinks commandText := by
  intro s text r h
  cases h
  exact (List.dropWhile_suffix _).trans (List.dropWhile_suffix _)

theorem helpBlock_shrinks : Shrinks helpBlock := by
  refine Shrinks.map _ ?_
  intro s text r h
  obtain ⟨v, u, w, rfl, hu, hw, -⟩ := Token.helpBlock_eq_some_iff.1 h
  have hmark (x : List Char) : x <:+ '@' :: '@' :: '@' :: x := ⟨['@', '@', '@'], rfl⟩
  have hru : r <:+ u := by
    have hsuffix := Token.helpText_suffix u
    rw [hw] at hsuffix
    exact (hmark r).trans hsuffix
  obtain ⟨c, x, -, hx, hux⟩ := Token.lineEnd_shrinks hu
  exact hru.trans (hux.trans ((suffix_of_dropGap hx).trans (hmark v)))

theorem keyword_shrinks (w : List Char) : Shrinks (silent (Token.keyword w)) := by
  intro s x r h
  rw [(Token.keyword_eq_some_iff.1 h).1]
  exact List.suffix_append w r

/-- Line ends with blanks between them, as they may stand before a brace. -/
abbrev blankLineEnd : Parser Unit := gap >>= fun _ => lineEnd

theorem run_blankLineEnd_iff {x : Unit} : blankLineEnd.run s = some (x, r) ↔
    Token.lineEnd (s.dropWhile isGap) = some ((), r) := by
  simp [blankLineEnd, lineEnd]

/-- The first line of a help block. -/
def helpOpening : Parser Unit := word ['@', '@', '@'] >>= fun _ => blankLineEnd

theorem run_helpBlock_enclosed (s : List Char) : (silent Token.helpBlock).run s =
    (enclosed helpOpening Token.helpText ['@', '@', '@'] Token.dropLastLineFeed).run s := by
  refine Option.ext ?_
  rintro ⟨x, r⟩
  rw [run_silent, Token.helpBlock_eq_some_iff, run_enclosed_iff, helpOpening, run_bind]
  simp only [Option.bind_eq_some_iff, Prod.exists, run_word_iff, run_blankLineEnd_iff]
  constructor
  · rintro ⟨v, u, inside, rfl, hu, htext, rfl⟩
    exact ⟨u, inside, ⟨(), v, rfl, hu⟩, htext, rfl⟩
  · rintro ⟨u, inside, ⟨_, v, rfl, hu⟩, htext, rfl⟩
    exact ⟨v, u, inside, rfl, hu, htext, rfl⟩

theorem blankLineEnd_strict : Strict blankLineEnd := by
  intro s x r h
  obtain ⟨c, w, -, hs, hr⟩ := Token.lineEnd_shrinks (run_blankLineEnd_iff.1 h)
  rw [hs, List.length_cons]
  exact Nat.lt_succ_of_le hr.length_le

theorem lineEnd_shrinks : Shrinks lineEnd := by
  intro s x r h
  obtain ⟨c, w, -, rfl, hr⟩ := Token.lineEnd_shrinks h
  exact hr.trans (List.suffix_cons c w)

/-- An argument's name up to its closing bracket, and its help. -/
def Declares (closing : Char) (s : List Char) (name : String) (help : Option String)
    (r : List Char) : Prop :=
  ∃ u v, Token.name (s.dropWhile isGap) = some (name, u) ∧ u.dropWhile isGap = closing :: v ∧
    (optional string).run (v.dropWhile isGap) = some (help, r)

/-- What stands at the front of a text that starts with a phrase other than a comment. Unlike the
parser, this is a choice without an order. -/
inductive Takes (expr : Parser Expr) (body : Parser (List Placed)) :
    List Char → Phrase → List Char → Prop
  | help {s r : List Char} {text : String} : Token.helpBlock s = some (text, r) →
    Takes expr body s (.help text) r
  | command {s r : List Char} {text : String} : commandText.run s = some (text, r) →
    Takes expr body ('$' :: s) (.command text) r
  | python {s r : List Char} {text : String} : commandText.run s = some (text, r) →
    Takes expr body ('>' :: '>' :: '>' :: s) (.python text) r
  | required {s r : List Char} {name : String} {help : Option String} :
    Declares '>' s name help r → Takes expr body ('<' :: s) (.arg ⟨name, true, help⟩) r
  | optional {s r : List Char} {name : String} {help : Option String} :
    Declares ']' s name help r → Takes expr body ('[' :: s) (.arg ⟨name, false, help⟩) r
  | exit {s u r : List Char} {code : Option Expr} :
    Token.keyword ['e', 'x', 'i', 't'] s = some ((), u) →
    (Parser.optional expr).run (u.dropWhile isGap) = some (code, r) →
    Takes expr body s (.exit code) r
  | yield {s r : List Char} : Token.keyword ['y', 'i', 'e', 'l', 'd'] s = some ((), r) →
    Takes expr body s .yield r
  | block {s u v w x r : List Char} {name : String} {ends : List Unit} {phrases : List Placed} :
    IsOwnName name → Token.name s = some (name, u) →
    Runs blankLineEnd (u.dropWhile isGap) ends v → v.dropWhile isGap = '\x7b' :: w →
    body.run (w.dropWhile isGap) = some (phrases, x) → x.dropWhile isGap = '\x7d' :: r →
    Takes expr body s (.block name phrases) r
  | oneLine {s u v r : List Char} {name text : String} : IsOwnName name →
    Token.name s = some (name, u) → u.dropWhile isGap = ':' :: v →
    commandText.run v = some (text, r) → Takes expr body s (.oneLine name text) r
  | assign {s u v r : List Char} {name : String} {value : Expr} : IsOwnName name →
    Token.name s = some (name, u) → u.dropWhile isGap = '=' :: v →
    expr.run (v.dropWhile isGap) = some (value, r) → Takes expr body s (.assign name value) r

theorem run_marked_iff {w : List Char} {f : String → Phrase} :
    (word w >>= fun _ => f <$> commandText).run s = some (phrase, r) ↔
      ∃ v text, s = w ++ v ∧ commandText.run v = some (text, r) ∧ phrase = f text := by
  simp only [run_bind, run_map, Option.bind_eq_some_iff, Option.map_eq_some_iff, Prod.exists,
    run_word_iff]
  constructor
  · rintro ⟨_, v, rfl, text, u, hu, he⟩
    cases he
    exact ⟨v, text, rfl, hu, rfl⟩
  · rintro ⟨v, text, rfl, hu, rfl⟩
    exact ⟨(), v, rfl, text, r, hu, rfl⟩

theorem run_declaration_iff {opening closing : Char} {required : Bool} :
    (declaration opening closing required).run s = some (phrase, r) ↔
      ∃ w name help, s = opening :: w ∧ Declares closing w name help r ∧
        phrase = .arg ⟨name, required, help⟩ := by
  simp only [declaration, Declares, run_bind, run_gap, run_pure, Option.bind_eq_some_iff,
    Prod.exists, run_word_iff, Option.bind_some, identifier, run_named, run_silent,
    List.singleton_append]
  constructor
  · rintro ⟨_, w, rfl, name, u, hu, _, v, hv, help, t, ht, he⟩
    cases he
    exact ⟨w, name, help, rfl, ⟨u, v, hu, hv, ht⟩, rfl⟩
  · rintro ⟨w, name, help, rfl, ⟨u, v, hu, hv, ht⟩, rfl⟩
    exact ⟨(), w, rfl, name, u, hu, (), v, hv, help, r, ht, rfl⟩

theorem run_exit_iff : (exit expr).run s = some (phrase, r) ↔
    ∃ u code, Token.keyword ['e', 'x', 'i', 't'] s = some ((), u) ∧
      (Parser.optional expr).run (u.dropWhile isGap) = some (code, r) ∧ phrase = .exit code := by
  simp only [exit, run_named, run_bind, run_gap, run_map, run_silent, Option.bind_eq_some_iff,
    Option.map_eq_some_iff, Option.bind_some, Prod.exists]
  constructor
  · rintro ⟨_, u, hu, code, t, ht, he⟩
    cases he
    exact ⟨u, code, hu, ht, rfl⟩
  · rintro ⟨u, code, hu, ht, rfl⟩
    exact ⟨(), u, hu, code, r, ht, rfl⟩

theorem run_yield_iff : yield.run s = some (phrase, r) ↔
    Token.keyword ['y', 'i', 'e', 'l', 'd'] s = some ((), r) ∧ phrase = .yield := by
  simp only [yield, run_named, run_bind, run_pure, run_silent, Option.bind_eq_some_iff, Prod.exists]
  constructor
  · rintro ⟨_, u, hu, he⟩
    cases he
    exact ⟨hu, rfl⟩
  · rintro ⟨hu, rfl⟩
    exact ⟨(), r, hu, rfl⟩

theorem run_targetBlock_iff : (targetBlock body).run s = some (phrase, r) ↔
    ∃ name u ends v w phrases x, Token.name s = some (name, u) ∧
      Runs blankLineEnd (u.dropWhile isGap) ends v ∧ v.dropWhile isGap = '\x7b' :: w ∧
      body.run (w.dropWhile isGap) = some (phrases, x) ∧ x.dropWhile isGap = '\x7d' :: r ∧
      phrase = .block name phrases := by
  simp only [targetBlock, run_named, run_bind, run_gap, run_pure, Option.bind_eq_some_iff,
    Prod.exists, run_word_iff, Option.bind_some, identifier, run_silent, List.singleton_append,
    run_many_iff blankLineEnd_strict]
  constructor
  · rintro ⟨name, u, hu, ends, v, hv, _, w, hw, phrases, x, hx, _, y, hy, he⟩
    cases he
    exact ⟨name, u, ends, v, w, phrases, x, hu, hv, hw, hx, hy, rfl⟩
  · rintro ⟨name, u, ends, v, w, phrases, x, hu, hv, hw, hx, hy, rfl⟩
    exact ⟨name, u, hu, ends, v, hv, (), w, hw, phrases, x, hx, (), r, hy, rfl⟩

theorem run_targetLine_iff : targetLine.run s = some (phrase, r) ↔
    ∃ name u v text, Token.name s = some (name, u) ∧ u.dropWhile isGap = ':' :: v ∧
      commandText.run v = some (text, r) ∧ phrase = .oneLine name text := by
  simp only [targetLine, run_named, run_bind, run_gap, run_map, Option.bind_eq_some_iff,
    Option.map_eq_some_iff, Prod.exists, run_word_iff, Option.bind_some, identifier, run_silent,
    List.singleton_append]
  constructor
  · rintro ⟨name, u, hu, _, v, hv, text, t, ht, he⟩
    cases he
    exact ⟨name, u, v, text, hu, hv, ht, rfl⟩
  · rintro ⟨name, u, v, text, hu, hv, ht, rfl⟩
    exact ⟨name, u, hu, (), v, hv, text, r, ht, rfl⟩

theorem run_assignment_iff : (assignment expr).run s = some (phrase, r) ↔
    ∃ name u v value, Token.name s = some (name, u) ∧ u.dropWhile isGap = '=' :: v ∧
      expr.run (v.dropWhile isGap) = some (value, r) ∧ phrase = .assign name value := by
  simp only [assignment, run_named, run_bind, run_gap, run_map, Option.bind_eq_some_iff,
    Option.map_eq_some_iff, Prod.exists, run_word_iff, Option.bind_some, identifier, run_silent,
    List.singleton_append]
  constructor
  · rintro ⟨name, u, hu, _, v, hv, value, t, ht, he⟩
    cases he
    exact ⟨name, u, v, value, hu, hv, ht, rfl⟩
  · rintro ⟨name, u, v, value, hu, hv, ht, rfl⟩
    exact ⟨name, u, hu, (), v, hv, value, r, ht, rfl⟩

/-- A name that no reserved word was read off is not one. -/
theorem isOwnName_of_keyword {name : String} (h : Token.name s = some (name, r))
    (hexit : Token.keyword ['e', 'x', 'i', 't'] s = none)
    (hyield : Token.keyword ['y', 'i', 'e', 'l', 'd'] s = none) : IsOwnName name := by
  obtain ⟨hname, rfl, hr⟩ := Token.name_eq_some_iff.1 h
  refine ⟨hname, ?_, ?_⟩
  · rintro rfl
    exact absurd ((Token.keyword_append hr).symm.trans hexit) (by simp)
  · rintro rfl
    exact absurd ((Token.keyword_append hr).symm.trans hyield) (by simp)

theorem keyword_eq_none_of_exit (h : (exit expr).run s = none) :
    Token.keyword ['e', 'x', 'i', 't'] s = none := by
  cases hs : Token.keyword ['e', 'x', 'i', 't'] s with
  | none => rfl
  | some x =>
    -- the exit code may be missing, so that the word alone is enough
    obtain ⟨code, r, hcode⟩ : ∃ code r,
        (Parser.optional expr).run (x.2.dropWhile isGap) = some (code, r) := by
      rw [run_optional]
      exact ⟨_, _, rfl⟩
    rw [run_exit_iff.2 ⟨x.2, code, hs, hcode, rfl⟩] at h
    cases h

theorem keyword_eq_none_of_yield (h : yield.run s = none) :
    Token.keyword ['y', 'i', 'e', 'l', 'd'] s = none := by
  cases hs : Token.keyword ['y', 'i', 'e', 'l', 'd'] s with
  | none => rfl
  | some x =>
    rw [run_yield_iff.2 ⟨hs, rfl⟩] at h
    cases h

/-- No line end is read off a text that starts with neither a blank nor a line end. -/
theorem Runs.blankLineEnd_cons {c : Char} {ends : List Unit} (hgap : isGap c = false)
    (hend : isLineEnd c = false) (h : Runs blankLineEnd (c :: s) ends r) : r = c :: s := by
  cases h with
  | done _ => rfl
  | step hstep _ _ =>
    obtain ⟨d, w, hd, hw, -⟩ := Token.lineEnd_shrinks (run_blankLineEnd_iff.1 hstep)
    rw [List.dropWhile_cons_of_neg (by simp [hgap])] at hw
    cases hw
    rw [hend] at hd
    cases hd

/-- A name with another character than a brace behind it does not start a target with a body. -/
theorem targetBlock_eq_none_of_cons {name : String} {u : List Char} {c : Char} {v : List Char}
    (h : Token.name s = some (name, u)) (hu : u.dropWhile isGap = c :: v)
    (hend : isLineEnd c = false) (hc : c ≠ '\x7b') : (targetBlock body).run s = none := by
  have hgap : isGap c = false := by
    have := Text.stopsAt_dropWhile isGap u
    rwa [hu, Text.stopsAt_cons] at this
  cases hs : (targetBlock body).run s with
  | none => rfl
  | some x =>
    obtain ⟨name', u', ends, v', w, phrases, y, hname, hends, hbrace, -⟩ :=
      run_targetBlock_iff.1 hs
    cases h.symm.trans hname
    rw [hu] at hends
    rw [hends.blankLineEnd_cons hgap hend, List.dropWhile_cons_of_neg (by simp [hgap])] at hbrace
    cases hbrace
    exact absurd rfl hc

theorem takes_of_item (h : (item expr body).run s = some (phrase, r)) :
    Takes expr body s phrase r := by
  simp only [run_item, Option.or_eq_some_iff] at h
  rcases h with h | ⟨-, h | ⟨-, h | ⟨-, h | ⟨-, h | ⟨-, h | ⟨hexit, h | ⟨hyield, h⟩⟩⟩⟩⟩⟩⟩
  · simp only [helpBlock, run_named, run_map, run_silent, Option.map_eq_some_iff, Prod.exists] at h
    obtain ⟨text, u, hu, he⟩ := h
    cases he
    exact .help hu
  · obtain ⟨v, text, rfl, hv, rfl⟩ := run_marked_iff.1 h
    exact .command hv
  · obtain ⟨v, text, rfl, hv, rfl⟩ := run_marked_iff.1 h
    exact .python hv
  · obtain ⟨w, name, help, rfl, hw, rfl⟩ := run_declaration_iff.1 h
    exact .required hw
  · obtain ⟨w, name, help, rfl, hw, rfl⟩ := run_declaration_iff.1 h
    exact .optional hw
  · obtain ⟨u, code, hu, hcode, rfl⟩ := run_exit_iff.1 h
    exact .exit hu hcode
  · obtain ⟨hu, rfl⟩ := run_yield_iff.1 h
    exact .yield hu
  · have hown {name : String} {u : List Char} (hname : Token.name s = some (name, u)) :
        IsOwnName name :=
      isOwnName_of_keyword hname (keyword_eq_none_of_exit hexit) (keyword_eq_none_of_yield hyield)
    rcases h with h | ⟨-, h | ⟨-, h⟩⟩
    · obtain ⟨name, u, ends, v, w, phrases, x, hu, hv, hw, hx, hr, rfl⟩ := run_targetBlock_iff.1 h
      exact .block (hown hu) hu hv hw hx hr
    · obtain ⟨name, u, v, text, hu, hv, htext, rfl⟩ := run_targetLine_iff.1 h
      exact .oneLine (hown hu) hu hv htext
    · obtain ⟨name, u, v, value, hu, hv, hvalue, rfl⟩ := run_assignment_iff.1 h
      exact .assign (hown hu) hu hv hvalue

/-- A target or an assignment starts with a name of its own. -/
theorem run_item_of_name {name : String} {u : List Char} (hown : IsOwnName name)
    (h : Token.name s = some (name, u)) : (item expr body).run s =
      ((targetBlock body).run s).or ((targetLine.run s).or ((assignment expr).run s)) := by
  obtain ⟨-, rfl, hu⟩ := Token.name_eq_some_iff.1 h
  exact item_of_name hown hu

theorem item_of_takes (h : Takes expr body s phrase r) :
    (item expr body).run s = some (phrase, r) := by
  cases h with
  | @help _ _ text h =>
    have hhelp : helpBlock.run s = some (.help text, r) := by
      simp only [helpBlock, run_named, run_map, run_silent, h, Option.map_some]
    rw [run_item, hhelp]
    rfl
  | @command s _ text h =>
    have hcommand : commandLine.run ('$' :: s) = some (.command text, r) :=
      (run_marked_iff (w := ['$']) (f := Phrase.command)).2 ⟨s, text, rfl, h, rfl⟩
    rw [run_item, helpBlock_eq_none (by simp), hcommand]
    rfl
  | @python s _ text h =>
    have hpython : pythonLine.run ('>' :: '>' :: '>' :: s) = some (.python text, r) :=
      (run_marked_iff (w := ['>', '>', '>']) (f := Phrase.python)).2 ⟨s, text, rfl, h, rfl⟩
    rw [run_item, helpBlock_eq_none (by simp), commandLine_eq_none (by simp), hpython]
    rfl
  | required h =>
    rw [run_item, helpBlock_eq_none (by simp), commandLine_eq_none (by simp),
      pythonLine_eq_none (by simp), requiredArg, run_named,
      run_declaration_iff.2 ⟨_, _, _, rfl, h, rfl⟩]
    rfl
  | optional h =>
    rw [run_item, helpBlock_eq_none (by simp), commandLine_eq_none (by simp),
      pythonLine_eq_none (by simp), requiredArg, run_named, declaration_eq_none (by simp),
      optionalArg, run_named, run_declaration_iff.2 ⟨_, _, _, rfl, h, rfl⟩]
    rfl
  | exit h hcode =>
    have hexit := run_exit_iff.2 ⟨_, _, h, hcode, rfl⟩
    obtain ⟨rfl, -⟩ := Token.keyword_eq_some_iff.1 h
    rw [List.cons_append] at hexit ⊢
    rw [run_item_of_isLetter (by decide), hexit]
    rfl
  | yield h =>
    have hyield := run_yield_iff.2 ⟨h, rfl⟩
    obtain ⟨rfl, -⟩ := Token.keyword_eq_some_iff.1 h
    rw [List.cons_append] at hyield ⊢
    rw [run_item_of_isLetter (by decide), exit_eq_none (keyword_eq_none (by simp)), hyield]
    rfl
  | block hown hu hv hw hx hr =>
    rw [run_item_of_name hown hu,
      run_targetBlock_iff.2 ⟨_, _, _, _, _, _, _, hu, hv, hw, hx, hr, rfl⟩]
    rfl
  | oneLine hown hu hv htext =>
    rw [run_item_of_name hown hu, targetBlock_eq_none_of_cons hu hv (by decide) (by decide),
      run_targetLine_iff.2 ⟨_, _, _, _, hu, hv, htext, rfl⟩]
    rfl
  | @assign _ u v _ name value hown hu hv hvalue =>
    have hline : targetLine.run s = none := by
      cases hs : targetLine.run s with
      | none => rfl
      | some x =>
        obtain ⟨name', u', v', text, hu', hv', -⟩ := run_targetLine_iff.1 hs
        cases hu.symm.trans hu'
        cases hv.symm.trans hv'
    rw [run_item_of_name hown hu, targetBlock_eq_none_of_cons hu hv (by decide) (by decide), hline,
      run_assignment_iff.2 ⟨_, _, _, _, hu, hv, hvalue, rfl⟩]
    rfl

/-- **The order of the choices does not matter**: what one kind of phrase takes, no other does. -/
theorem run_item_iff : (item expr body).run s = some (phrase, r) ↔ Takes expr body s phrase r :=
  ⟨takes_of_item, item_of_takes⟩

theorem item_shrinks (hexpr : Shrinks expr) (hbody : Shrinks body) : Shrinks (item expr body) := by
  have hlineEnds : Shrinks (many blankLineEnd) :=
    (gap_shrinks.bind fun _ => lineEnd_shrinks).many blankLineEnd_strict
  have hdeclaration (opening closing : Char) (required : Bool) :
      Shrinks (declaration opening closing required) :=
    (word_shrinks _).bind fun _ => gap_shrinks.bind fun _ => identifier_shrinks.bind fun _ =>
      gap_shrinks.bind fun _ => (word_shrinks _).bind fun _ => gap_shrinks.bind fun _ =>
        string_shrinks.optional.bind fun _ => .pure _
  refine Shrinks.firstOf fun p hp => ?_
  simp only [List.mem_cons, List.not_mem_nil, or_false] at hp
  rcases hp with rfl | rfl | rfl | rfl | rfl | rfl | rfl | rfl | rfl | rfl
  · exact helpBlock_shrinks
  · exact (word_shrinks ['$']).bind fun _ => commandText_shrinks.map _
  · exact (word_shrinks ['>', '>', '>']).bind fun _ => commandText_shrinks.map _
  · exact hdeclaration _ _ _
  · exact hdeclaration _ _ _
  · exact (keyword_shrinks _).bind fun _ => gap_shrinks.bind fun _ => hexpr.optional.map _
  · exact (keyword_shrinks _).bind fun _ => .pure _
  · exact identifier_shrinks.bind fun _ => gap_shrinks.bind fun _ => hlineEnds.bind fun _ =>
      gap_shrinks.bind fun _ => (word_shrinks ['\x7b']).bind fun _ => gap_shrinks.bind fun _ =>
        hbody.bind fun _ => gap_shrinks.bind fun _ => (word_shrinks ['\x7d']).bind fun _ => .pure _
  · exact identifier_shrinks.bind fun _ => gap_shrinks.bind fun _ =>
      (word_shrinks [':']).bind fun _ => commandText_shrinks.map _
  · exact identifier_shrinks.bind fun _ => gap_shrinks.bind fun _ =>
      (word_shrinks ['=']).bind fun _ => gap_shrinks.bind fun _ => hexpr.map _

/-! ## Lines -/

/-- What stands at the front of a text that starts with a line that is not empty. -/
inductive TakesLine (expr : Parser Expr) (body : Parser (List Placed)) :
    List Char → List Placed → List Char → Prop
  | bare {s u : List Char} {phrase : Phrase} : Takes expr body s phrase u →
    StopsAt (· == '#') (u.dropWhile isGap) →
    TakesLine expr body s [(s, phrase)] (u.dropWhile isGap)
  | noted {s u v : List Char} {phrase : Phrase} : Takes expr body s phrase u →
    u.dropWhile isGap = '#' :: v →
    TakesLine expr body s [(s, phrase),
      (u.dropWhile isGap, .comment (String.ofList (Token.restOfLine v).1))] (Token.restOfLine v).2
  | comment {v : List Char} : TakesLine expr body ('#' :: v)
      [('#' :: v, .comment (String.ofList (Token.restOfLine v).1))] (Token.restOfLine v).2

theorem run_note_cons (v : List Char) : (placed (Phrase.comment <$> comment)).run ('#' :: v) =
    some (('#' :: v, .comment (String.ofList (Token.restOfLine v).1)), (Token.restOfLine v).2) :=
  rfl

theorem run_note_none (h : StopsAt (· == '#') s) :
    (placed (Phrase.comment <$> comment)).run s = none := by
  simp [placed, comment_eq_none h]

theorem note_cases (s : List Char) : StopsAt (· == '#') s ∨ ∃ v, s = '#' :: v := by
  cases s with
  | nil => exact .inl Text.stopsAt_nil
  | cons c v =>
    by_cases hc : c = '#'
    · exact .inr ⟨v, by rw [hc]⟩
    · exact .inl (by simpa using hc)

theorem run_line_iff {phrases : List Placed} : (line expr body).run s = some (phrases, r) ↔
    TakesLine expr body s phrases r := by
  have hitem {p : Phrase} {u : List Char} (h : Takes expr body s p u) :
      (placed (item expr body)).run s = some ((s, p), u) := by
    simp only [placed, run_bind, run_here, Option.bind_some, run_item_iff.2 h, run_pure]
  constructor
  · intro h
    cases hs : (item expr body).run s with
    | none =>
      rcases note_cases s with hnote | ⟨v, rfl⟩
      · simp [line, placed, hs, comment_eq_none hnote] at h
      · simp only [line, run_orElse, run_bind, placed, run_here, hs, Option.bind_some,
          Option.bind_none, Option.none_or] at h
        cases h
        exact .comment
    | some x =>
      obtain ⟨p, u⟩ := x
      have hp := run_item_iff.1 hs
      simp only [line, run_orElse, run_bind, hitem hp, Option.bind_some, run_gap] at h
      rcases note_cases (u.dropWhile isGap) with hnote | ⟨v, hv⟩
      · rw [run_optional_none (run_note_none hnote)] at h
        cases h
        exact .bare hp hnote
      · rw [run_optional_some (hv ▸ run_note_cons v)] at h
        cases h
        exact .noted hp hv
  · intro h
    cases h with
    | bare hp hnote =>
      simp only [line, run_orElse, run_bind, hitem hp, Option.bind_some, run_gap,
        run_optional_none (run_note_none hnote), run_pure, Option.some_or, Option.toList_none]
    | noted hp hv =>
      simp only [line, run_orElse, run_bind, hitem hp, Option.bind_some, run_gap, hv,
        run_optional_some (run_note_cons _), run_pure, Option.some_or, Option.toList_some]
    | @comment v =>
      have hnone : (item expr body).run ('#' :: v) = none :=
        item_eq_none (Text.stopsAt_cons.2 (by decide))
      simp only [line, run_orElse, run_bind, placed, run_here, hnone, Option.bind_some,
        Option.bind_none, Option.none_or]
      rfl

theorem line_shrinks (hexpr : Shrinks expr) (hbody : Shrinks body) : Shrinks (line expr body) := by
  have hnote : Shrinks (placed (Phrase.comment <$> comment)) := by
    intro s p r h
    rcases note_cases s with hs | ⟨v, rfl⟩
    · rw [run_note_none hs] at h
      cases h
    · cases h
      exact (List.dropWhile_suffix _).trans (List.suffix_cons '#' v)
  have hitem : Shrinks (placed (item expr body)) := by
    intro s p r h
    simp only [placed, run_bind, run_here, Option.bind_some, Option.bind_eq_some_iff,
      Prod.exists] at h
    obtain ⟨p', u, hu, he⟩ := h
    cases he
    exact item_shrinks hexpr hbody hu
  exact .orElse (hitem.bind fun _ => gap_shrinks.bind fun _ => hnote.optional.bind fun _ => .pure _)
    (hnote.bind fun _ => .pure _)

theorem run_nextLine_iff {o : Option (List Placed)} :
    (nextLine expr body).run s = some (o, r) ↔
      ∃ u, Token.lineEnd (s.dropWhile isGap) = some ((), u) ∧
        (Parser.optional (line expr body)).run (u.dropWhile isGap) = some (o, r) := by
  simp only [nextLine, run_bind, run_gap, Option.bind_some, Option.bind_eq_some_iff, Prod.exists,
    lineEnd, run_silent]
  constructor
  · rintro ⟨_, u, hu, hr⟩
    exact ⟨u, hu, hr⟩
  · rintro ⟨u, hu, hr⟩
    exact ⟨(), u, hu, hr⟩

theorem nextLine_shrinks (hexpr : Shrinks expr) (hbody : Shrinks body) :
    Shrinks (nextLine expr body) :=
  gap_shrinks.bind fun _ => lineEnd_shrinks.bind fun _ => gap_shrinks.bind fun _ =>
    (line_shrinks hexpr hbody).optional

theorem nextLine_strict (hexpr : Shrinks expr) (hbody : Shrinks body) :
    Strict (nextLine expr body) := by
  intro s o r h
  obtain ⟨u, hu, hr⟩ := run_nextLine_iff.1 h
  obtain ⟨c, w, -, hs, huw⟩ := Token.lineEnd_shrinks hu
  have hru : r <:+ u := ((line_shrinks hexpr hbody).optional hr).trans (List.dropWhile_suffix isGap)
  rw [hs, List.length_cons]
  exact Nat.lt_succ_of_le (hru.trans huw).length_le

theorem run_lines_iff (hexpr : Shrinks expr) (hbody : Shrinks body) {phrases : List Placed} :
    (lines expr body).run s = some (phrases, r) ↔
      ∃ first u rest, (Parser.optional (line expr body)).run (s.dropWhile isGap) = some (first, u) ∧
        Runs (nextLine expr body) u rest r ∧ phrases = (first :: rest).flatMap (·.getD []) := by
  simp only [lines, run_named, run_bind, run_gap, run_pure, Option.bind_some,
    Option.bind_eq_some_iff, Prod.exists, run_many_iff (nextLine_strict hexpr hbody)]
  constructor
  · rintro ⟨first, u, hfirst, rest, v, hrest, he⟩
    cases he
    exact ⟨first, u, rest, hfirst, hrest, rfl⟩
  · rintro ⟨first, u, rest, hfirst, hrest, rfl⟩
    exact ⟨first, u, hfirst, rest, r, hrest, rfl⟩

theorem lines_shrinks (hexpr : Shrinks expr) (hbody : Shrinks body) :
    Shrinks (lines expr body) := by
  intro s phrases r h
  obtain ⟨first, u, rest, hfirst, hrest, -⟩ := (run_lines_iff hexpr hbody).1 h
  exact (hrest.suffix (nextLine_shrinks hexpr hbody)).trans
    (((line_shrinks hexpr hbody).optional hfirst).trans (List.dropWhile_suffix isGap))

theorem body_shrinks : ∀ depth, Shrinks (Parser.body depth)
  | 0 => fun _ _ _ h => by cases h
  | depth + 1 => lines_shrinks (expression_shrinks (depth + 1)) (body_shrinks depth)

theorem run_body_iff {depth : Nat} {phrases : List Placed} :
    (Parser.body (depth + 1)).run s = some (phrases, r) ↔
      ∃ first u rest,
        (Parser.optional (line (nested (depth + 1)) (delay fun _ => Parser.body depth))).run
          (s.dropWhile isGap) = some (first, u) ∧
        Runs (nextLine (nested (depth + 1)) (delay fun _ => Parser.body depth)) u rest r ∧
        phrases = (first :: rest).flatMap (·.getD []) :=
  run_lines_iff (expression_shrinks (depth + 1)) (body_shrinks depth)

theorem run_script_iff {depth : Nat} {phrases : List Placed} :
    (script depth).run s = some (phrases, r) ↔
      ∃ u, (Parser.body depth).run (s.dropWhile isGap) = some (phrases, u) ∧
        u.dropWhile isGap = [] ∧ r = [] := by
  simp only [script, run_named, run_bind, run_gap, run_pure, Option.bind_some,
    Option.bind_eq_some_iff, Prod.exists, endOfInput, run_silent]
  constructor
  · rintro ⟨ps, u, hu, _, v, hv, he⟩
    cases he
    split at hv
    · rename_i hnil
      cases hv
      exact ⟨u, hu, List.isEmpty_iff.1 hnil, rfl⟩
    · cases hv
  · rintro ⟨u, hu, hnil, rfl⟩
    exact ⟨phrases, u, hu, (), [], by rw [hnil]; rfl, rfl⟩

/-! ## Every phrase of a script -/

/-- True of a phrase and, if it has a body, of every phrase in there. -/
inductive Everywhere (P : List Char → Phrase → Prop) : Placed → Prop
  | intro {s : List Char} {phrase : Phrase} : P s phrase →
    (∀ name phrases, phrase = .block name phrases → ∀ q ∈ phrases, q.1 <:+ s) →
    (∀ name phrases, phrase = .block name phrases → ∀ q ∈ phrases, Everywhere P q) →
    Everywhere P (s, phrase)

/-- Phrases that stand in a text, each with the property. -/
def Within (P : List Char → Phrase → Prop) (s : List Char) (phrases : List Placed) : Prop :=
  ∀ q ∈ phrases, q.1 <:+ s ∧ Everywhere P q

theorem Within.trans {P : List Char → Phrase → Prop} {phrases : List Placed}
    (h : Within P r phrases) (hr : r <:+ s) : Within P s phrases :=
  fun q hq => ⟨(h q hq).1.trans hr, (h q hq).2⟩

theorem Within.nil {P : List Char → Phrase → Prop} : Within P s [] := by
  intro q hq
  cases hq

theorem Within.append {P : List Char → Phrase → Prop} {ps qs : List Placed} (hps : Within P s ps)
    (hqs : Within P s qs) : Within P s (ps ++ qs) := by
  intro q hq
  rcases List.mem_append.1 hq with hq | hq
  · exact hps q hq
  · exact hqs q hq

theorem Within.single {P : List Char → Phrase → Prop} (h : Everywhere P (r, phrase))
    (hr : r <:+ s) : Within P s [(r, phrase)] := by
  intro q hq
  cases List.mem_singleton.1 hq
  exact ⟨hr, h⟩

section Everywhere

variable {P : List Char → Phrase → Prop}
  (hcomment : ∀ v, P ('#' :: v) (.comment (String.ofList (Token.restOfLine v).1)))
  (htakes : ∀ {s phrase r}, Takes expr body s phrase r → P s phrase)
  (hexpr : Shrinks expr) (hbody : Shrinks body)
  (ih : ∀ {s phrases r}, body.run s = some (phrases, r) → Within P s phrases)

include htakes ih in
theorem Takes.everywhere (h : Takes expr body s phrase r) : Everywhere P (s, phrase) := by
  have hinside : ∀ name phrases, phrase = .block name phrases → Within P s phrases := by
    rintro name phrases rfl
    cases h with
    | @block _ u v w x _ _ ends _ _ hu hv hw hx _ =>
      have hwv : w <:+ v := suffix_of_dropGap hw
      have hblank : Shrinks blankLineEnd := gap_shrinks.bind fun _ => lineEnd_shrinks
      have hvu : v <:+ u := (hv.suffix hblank).trans (List.dropWhile_suffix isGap)
      have hus : u <:+ s := identifier_shrinks hu
      exact (ih hx).trans ((List.dropWhile_suffix isGap).trans (hwv.trans (hvu.trans hus)))
  exact ⟨htakes h, fun name phrases he q hq => (hinside name phrases he q hq).1,
    fun name phrases he q hq => (hinside name phrases he q hq).2⟩

include hcomment htakes hexpr hbody ih

theorem optional_line_within {o : Option (List Placed)}
    (h : (Parser.optional (line expr body)).run s = some (o, r)) : Within P s (o.getD []) := by
  have hnote (v : List Char) :
      Everywhere P ('#' :: v, .comment (String.ofList (Token.restOfLine v).1)) :=
    ⟨hcomment v, fun _ _ he => (by cases he), fun _ _ he => (by cases he)⟩
  rcases run_optional_iff.1 h with ⟨phrases, hs, rfl⟩ | ⟨-, rfl, -⟩
  · cases run_line_iff.1 hs with
    | bare hp _ => exact .single (hp.everywhere htakes ih) (List.suffix_refl s)
    | @noted _ u v _ hp hv =>
      have hu : u <:+ s := item_shrinks hexpr hbody (run_item_iff.2 hp)
      exact .append (.single (hp.everywhere htakes ih) (List.suffix_refl s))
        (.single (hv ▸ hnote v) ((List.dropWhile_suffix isGap).trans hu))
    | @comment v => exact .single (hnote v) (List.suffix_refl _)
  · exact .nil

theorem nextLines_within {rest : List (Option (List Placed))}
    (h : Runs (nextLine expr body) s rest r) : Within P s (rest.flatMap (·.getD [])) := by
  induction h with
  | done _ => exact .nil
  | @step s t r o rest hstep _ _ ihr =>
    obtain ⟨u, hu, ho⟩ := run_nextLine_iff.1 hstep
    have hus : u <:+ s := (lineEnd_shrinks hu).trans (List.dropWhile_suffix isGap)
    rw [List.flatMap_cons]
    exact .append ((optional_line_within hcomment htakes hexpr hbody ih ho).trans
      ((List.dropWhile_suffix isGap).trans hus)) (ihr.trans (nextLine_shrinks hexpr hbody hstep))

end Everywhere

section Everywhere

variable {P : List Char → Phrase → Prop}
  (hcomment : ∀ v, P ('#' :: v) (.comment (String.ofList (Token.restOfLine v).1)))
  (htakes : ∀ {depth body s phrase r}, Takes (nested depth) body s phrase r → P s phrase)

include hcomment htakes

theorem body_within : ∀ {depth : Nat} {s r : List Char} {phrases : List Placed},
    (Parser.body depth).run s = some (phrases, r) → Within P s phrases
  | 0, _, _, _, h => by cases h
  | depth + 1, s, r, phrases, h => by
    have hexpr : Shrinks (nested (depth + 1)) := expression_shrinks (depth + 1)
    have hbody := body_shrinks depth
    obtain ⟨first, u, rest, hfirst, hrest, rfl⟩ := run_body_iff.1 h
    rw [List.flatMap_cons]
    refine Within.trans (.append ?_ ?_) (List.dropWhile_suffix isGap)
    · exact optional_line_within hcomment htakes hexpr hbody body_within hfirst
    · exact (nextLines_within hcomment htakes hexpr hbody body_within hrest).trans
        ((line_shrinks hexpr hbody).optional hfirst)

/-- **What every phrase has when it is read, every phrase of a script has**, and each stands in the
text of the script. -/
theorem phrases?_within {phrases : List Placed} (h : phrases? s = some phrases) :
    Within P s phrases := by
  obtain ⟨⟨ps, r⟩, hrun, rfl⟩ := Option.map_eq_some_iff.1 h
  obtain ⟨u, hu, -⟩ := run_script_iff.1 hrun
  exact (body_within hcomment htakes hu).trans (List.dropWhile_suffix isGap)

end Everywhere

end Parser

end TaskRunner.Grammar
