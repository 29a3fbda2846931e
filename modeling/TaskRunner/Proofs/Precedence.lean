import TaskRunner.Proofs.Concatenation

/-!
# Operators and parentheses

A `Draft` is an expression with what a writer is free to choose: the token of each number, the blanks
between any two tokens, and parentheses that are not needed. `Draft.write` adds the parentheses that
are. An operand needs them if it belongs to a looser level than the place where it stands asks for: a
sign asks for a primary, a product for a term to its left and a factor to its right, a sum for a sum
to its left and a term to its right. Whatever was chosen, an assignment of the draft is read as an
assignment of its expression (`parse_draft`).
-/
namespace TaskRunner

namespace Grammar

open Text (StopsAt)

/-- Blanks between two tokens, of which there may be none. -/
structure Gap where
  text : List Char
  blanks : Blanks text

namespace Gap

def empty : Gap := ⟨[], .nil⟩

def space : Gap := ⟨[' '], .single⟩

end Gap

/-- A token and the number that it is read as. -/
structure Numeral where
  token : List Char
  value : Number
  reads : Token.number token = some (value, [])

/-- An expression as somebody has written it, less the parentheses that it needs. -/
inductive Draft where
  | number (n : Numeral)
  | text (s : String)
  | var (name : String) (isName : Token.IsName name)
  | negate (gap : Gap) (operand : Draft)
  | binary (op : BinOp) (left : Draft) (before behind : Gap) (right : Draft)
  /-- Parentheses that may be needed or not. -/
  | paren (before behind : Gap) (inside : Draft)

/-- How loose a level is. -/
def Level.rank : Level → Nat
  | .primary => 0
  | .factor => 1
  | .term => 2
  | .sum => 3

end Grammar

open Grammar

namespace BinOp

/-- The level of an operation, which is also that of its left operand. -/
def level (op : BinOp) : Level := if op.isSum then .sum else .term

def rightLevel (op : BinOp) : Level := if op.isSum then .term else .factor

end BinOp

namespace Grammar.Draft

/-- What is written. -/
def expr : Draft → Expr
  | .number n => .number n.value
  | .text s => .text s
  | .var name _ => .var name
  | .negate _ d => .negate d.expr
  | .binary op l _ _ r => .binary op l.expr r.expr
  | .paren _ _ d => d.expr

def level : Draft → Level
  | .negate _ _ => .factor
  | .binary op _ _ _ _ => op.level
  | _ => .primary

/-- Where that level is asked for, the draft has to be put in parentheses. -/
def needsParen (d : Draft) (asked : Level) : Bool := decide (asked.rank < d.level.rank)

def write : Draft → List Char
  | .number n => n.token
  | .text s => '"' :: (Token.escape s.toList ++ ['"'])
  | .var name _ => name.toList
  | .negate g d => '-' :: (g.text ++ Expr.bracket (d.needsParen .primary) d.write)
  | .binary op l g g' r =>
    Expr.bracket (l.needsParen op.level) l.write ++
      (g.text ++ op.symbol :: (g'.text ++ Expr.bracket (r.needsParen op.rightLevel) r.write))
  | .paren g g' d => '(' :: (g.text ++ (d.write ++ (g'.text ++ [')'])))

/-- Without a blank, and without parentheses that are not needed. -/
def Bare : Draft → Prop
  | .negate g d => g.text = [] ∧ d.Bare
  | .binary _ l g g' r => l.Bare ∧ g.text = [] ∧ g'.text = [] ∧ r.Bare
  | .paren _ _ _ => False
  | _ => True

end Grammar.Draft

/-- Variables are names, and for every number there is a token that is read as that number. -/
def Expr.Writable : Expr → Prop
  | .number x => ∃ token, Token.number token = some (x, [])
  | .text _ => True
  | .var name => Token.IsName name
  | .negate e => e.Writable
  | .binary _ l r => l.Writable ∧ r.Writable

namespace Grammar

open Text (StopsAt)

/-- A text for one level may stand where a looser one is asked for. -/
theorem Spells.loosen {l l' : Level} {t : List Char} {e : Expr} (h : Spells l t e)
    (hrank : l.rank ≤ l'.rank) : Spells l' t e := by
  cases l with
  | primary =>
    cases l' with
    | primary => exact h
    | factor => exact .factor h
    | term => exact .term (.factor h)
    | sum => exact .sum (.term (.factor h))
  | factor =>
    cases l' with
    | primary => simp [Level.rank] at hrank
    | factor => exact h
    | term => exact .term h
    | sum => exact .sum (.term h)
  | term =>
    cases l' with
    | primary | factor => simp [Level.rank] at hrank
    | term => exact h
    | sum => exact .sum h
  | sum =>
    cases l' with
    | primary | factor | term => simp [Level.rank] at hrank
    | sum => exact h

namespace Draft

theorem spells_sum {d : Draft} (h : Spells d.level d.write d.expr) :
    Spells .sum d.write d.expr :=
  h.loosen (by cases d.level <;> simp [Level.rank])

/-- With parentheses where they are needed, a draft may stand anywhere. -/
theorem spells_bracket {d : Draft} (h : Spells d.level d.write d.expr) (asked : Level) :
    Spells asked (Expr.bracket (d.needsParen asked) d.write) d.expr := by
  unfold needsParen Expr.bracket
  by_cases hrank : asked.rank < d.level.rank
  · have hparen : Spells .primary ('(' :: (d.write ++ [')'])) d.expr := by
      simpa using Spells.paren .nil .nil (spells_sum h)
    have hplace : Spells asked ('(' :: (d.write ++ [')'])) d.expr :=
      hparen.loosen (by simp [Level.rank])
    simpa [hrank] using hplace
  · simpa [hrank] using h.loosen (by omega)

/-- **What is written is a spelling of the expression**, for the level of the draft. -/
theorem spells (d : Draft) : Spells d.level d.write d.expr := by
  induction d with
  | number n => exact .number n.reads
  | text s => exact .text s
  | var name isName => exact .var isName
  | negate g d ih => exact .negate g.blanks (spells_bracket ih .primary)
  | binary op l g g' r ihl ihr =>
    have hl := spells_bracket ihl op.level
    have hr := spells_bracket ihr op.rightLevel
    cases hop : op.isSum with
    | true =>
      have hlevel : op.level = .sum ∧ op.rightLevel = .term := by
        simp [BinOp.level, BinOp.rightLevel, hop]
      simp only [level, write, expr, hlevel] at hl hr ⊢
      exact .addition hop g.blanks g'.blanks hl hr
    | false =>
      have hlevel : op.level = .term ∧ op.rightLevel = .factor := by
        simp [BinOp.level, BinOp.rightLevel, hop]
      simp only [level, write, expr, hlevel] at hl hr ⊢
      exact .product hop g.blanks g'.blanks hl hr
  | paren g g' d ih => exact .paren g.blanks g'.blanks (spells_sum ih)

theorem writable_expr : ∀ d : Draft, d.expr.Writable
  | .number n => ⟨n.token, n.reads⟩
  | .text _ => trivial
  | .var _ isName => isName
  | .negate _ d => d.writable_expr
  | .binary _ l _ _ r => ⟨l.writable_expr, r.writable_expr⟩
  | .paren _ _ d => d.writable_expr

/-- What can be written has a draft with nothing in it that could be left out. -/
theorem exists_bare : ∀ {e : Expr}, e.Writable → ∃ d : Draft, d.expr = e ∧ d.Bare
  | .number x, ⟨token, h⟩ => ⟨.number ⟨token, x, h⟩, rfl, trivial⟩
  | .text s, _ => ⟨.text s, rfl, trivial⟩
  | .var name, h => ⟨.var name h, rfl, trivial⟩
  | .negate e, h => by
    obtain ⟨d, rfl, hd⟩ := exists_bare (e := e) h
    exact ⟨.negate .empty d, rfl, rfl, hd⟩
  | .binary op l r, h => by
    obtain ⟨d, rfl, hd⟩ := exists_bare (e := l) h.1
    obtain ⟨d', rfl, hd'⟩ := exists_bare (e := r) h.2
    exact ⟨.binary op d .empty .empty d', rfl, hd, rfl, rfl, hd'⟩

end Draft

/-! ## Assignments -/

namespace Gap

theorem dropWhile_text (g : Gap) : g.text.dropWhile isGap = [] :=
  List.dropWhile_eq_nil_iff.2 g.blanks

/-- Blanks stop what a blank does not belong to. -/
theorem stopsAt (g : Gap) {p : Char → Bool} (hspace : p ' ' = false) (htab : p '\t' = false)
    {s : List Char} (hs : StopsAt p s) : StopsAt p (g.text ++ s) := by
  cases hg : g.text with
  | nil => exact hs
  | cons c w =>
    have hc : isGap c = true := g.blanks c (by simp [hg])
    exact Text.stopsAt_cons.2 (eq_false_of_isGap hc hspace htab)

/-- Blanks at the end of a text may follow an expression. -/
theorem sumEnd (g : Gap) : Parser.SumEnd g.text := by
  refine ⟨⟨?_, by rw [g.dropWhile_text]; rfl⟩, by rw [g.dropWhile_text]; rfl⟩
  simpa using g.stopsAt (p := isWordChar) rfl rfl Text.stopsAt_nil

end Gap

/-- An assignment of a draft, with blanks wherever they may stand behind the name. -/
def assignText (name : String) (before behind : Gap) (d : Draft) (last : Gap) : List Char :=
  name.toList ++ (before.text ++ '=' :: (behind.text ++ (d.write ++ last.text)))

section

variable {name : String} (before behind last : Gap) (d : Draft)

/-- The value is read to the end of the text. -/
theorem takes_assignText (hname : IsOwnName name) {body : Parser (List Placed)} {depth : Nat}
    (hdepth : d.write.length ≤ depth) : ∃ r, r.dropWhile isGap = [] ∧
      Parser.Takes (Parser.nested depth) body (assignText name before behind d last)
        (.assign name d.expr) r := by
  obtain ⟨r, hread, hr⟩ :=
    Parser.expression_of_spells (Draft.spells_sum d.spells) hdepth last.text last.sumEnd
  have hstop : StopsAt isNameChar
      (before.text ++ '=' :: (behind.text ++ (d.write ++ last.text))) :=
    before.stopsAt rfl rfl (Text.stopsAt_cons.2 rfl)
  refine ⟨r, by rw [hr.dropWhile_eq, last.dropWhile_text],
    .assign hname (Token.name_append hname.1 hstop)
      (before.blanks.dropWhile_append (Text.stopsAt_cons.2 (by decide))) ?_⟩
  rw [behind.blanks.dropWhile_append (d.spells.stopsAt_gap _)]
  exact hread

theorem phrases?_assignText (hname : IsOwnName name) :
    phrases? (assignText name before behind d last) =
      some [(assignText name before behind d last, .assign name d.expr)] := by
  have hlength : d.write.length ≤ (assignText name before behind d last).length + 1 := by
    simp only [assignText, List.length_append, List.length_cons]
    omega
  obtain ⟨r, hr, htakes⟩ := takes_assignText before behind last d hname hlength
  exact phrases?_single htakes hr (hname.1.stopsAt (fun _ => Parser.isGap_of_isLetter) _)

end

end Grammar

namespace Script

/-- **Precedence and parentheses.** An expression that can be written at all can be written without a
blank and with no parentheses but those that it needs. However it is written, with more parentheses
and with blanks between the tokens, the assignment is read, and its value is that expression. -/
theorem parse_draft {name : String} (hname : IsOwnName name) {e : Expr} (he : e.Writable) :
    (∃ d : Draft, d.expr = e ∧ d.Bare) ∧
      ∀ d : Draft, d.expr = e → ∀ (before behind last : Gap) (filename : Option String),
        parse (String.ofList (assignText name before behind d last)) filename =
          .ok ⟨none, [.assign ⟨name, e, 1⟩]⟩ := by
  refine ⟨Draft.exists_bare he, ?_⟩
  rintro d rfl before behind last filename
  refine parse_eq_ok_iff.2 ⟨[(assignText name before behind d last, .assign name d.expr)], ?_, ?_⟩
  · rw [String.toList_ofList]
    exact phrases?_assignText before behind last d hname
  · simp [ofPhrases, accept, lineOf, push, empty]

/-- `a--b--c*("s"+2)`. -/
def bareDraft : Draft :=
  .binary .sub
    (.binary .sub (.var "a" (by decide)) .empty .empty (.negate .empty (.var "b" (by decide))))
    .empty .empty
    (.binary .mul (.negate .empty (.var "c" (by decide))) .empty .empty
      (.binary .add (.text "s") .empty .empty (.number ⟨['2'], _, rfl⟩)))

/-- `((a) - -( b)) -- c * ((("s" )+2.0))`. -/
def looseDraft : Draft :=
  .binary .sub
    (.paren .empty .empty (.binary .sub (.paren .empty .empty (.var "a" (by decide))) .space .space
      (.negate .empty (.paren .space .empty (.var "b" (by decide))))))
    .space .empty
    (.binary .mul (.negate .space (.var "c" (by decide))) .space .space
      (.paren .empty .empty (.paren .empty .empty
        (.binary .add (.paren .empty .space (.text "s")) .empty .empty
          (.number ⟨['2', '.', '0'], _, rfl⟩)))))

theorem parse_draft_mixed :
    IsOwnName "x" ∧ bareDraft.expr.Writable ∧ bareDraft.Bare ∧ looseDraft.expr = bareDraft.expr ∧
      parse "x=a--b--c*(\"s\"+2)" none = .ok ⟨none, [.assign ⟨"x", bareDraft.expr, 1⟩]⟩ ∧
      parse "x = ((a) - -( b)) -- c * (((\"s\" )+2.0)) " none =
        .ok ⟨none, [.assign ⟨"x", bareDraft.expr, 1⟩]⟩ := by
  have hname : IsOwnName "x" := by decide
  have hwritable : bareDraft.expr.Writable := bareDraft.writable_expr
  have hloose : looseDraft.expr = bareDraft.expr := by decide +kernel
  have hread := (parse_draft hname hwritable).2
  refine ⟨hname, hwritable, ?_, hloose, ?_, ?_⟩
  · simp [Draft.Bare, bareDraft, Gap.empty]
  · exact hread bareDraft rfl .empty .empty .empty none
  · exact hread looseDraft hloose .space .space .space none

end Script

end TaskRunner
