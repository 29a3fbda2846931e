import TaskRunner.Proofs.Reading

/-!
# How an expression may be written

`Spells` says when a text is an expression: with parentheses at least where the levels of its
operators ask for them, and blanks between any two parts. `expression_of_spells` shows that the
parser reads such a text back as that expression, if what follows cannot be a part of it. The
operators of one level are read in a loop, so the induction carries what the loop does with the
operators of a text and whatever comes behind them (`Chained`).
-/
namespace TaskRunner

def BinOp.isSum : BinOp → Bool
  | .add => true
  | .sub => true
  | _ => false

namespace Grammar

open Text (StopsAt)

/-- The levels of an expression, from the inside out. -/
inductive Level where
  | primary
  | factor
  | term
  | sum
deriving DecidableEq, Repr

/-- The text is the expression written out, so that it may stand where that level is asked for. -/
inductive Spells : Level → List Char → Expr → Prop
  | number {w : List Char} {x : Number} : Token.number w = some (x, []) →
    Spells .primary w (.number x)
  | text (s : String) : Spells .primary ('"' :: (Token.escape s.toList ++ ['"'])) (.text s)
  | var {name : String} : Token.IsName name → Spells .primary name.toList (.var name)
  | paren {g g' t : List Char} {e : Expr} : Blanks g → Blanks g' → Spells .sum t e →
    Spells .primary ('(' :: (g ++ (t ++ (g' ++ [')'])))) e
  | negate {g t : List Char} {e : Expr} : Blanks g → Spells .primary t e →
    Spells .factor ('-' :: (g ++ t)) (.negate e)
  | factor {t : List Char} {e : Expr} : Spells .primary t e → Spells .factor t e
  | product {op : BinOp} {l g g' r : List Char} {a b : Expr} : op.isSum = false → Blanks g →
    Blanks g' → Spells .term l a → Spells .factor r b →
    Spells .term (l ++ (g ++ op.symbol :: (g' ++ r))) (.binary op a b)
  | term {t : List Char} {e : Expr} : Spells .factor t e → Spells .term t e
  | addition {op : BinOp} {l g g' r : List Char} {a b : Expr} : op.isSum = true → Blanks g →
    Blanks g' → Spells .sum l a → Spells .term r b →
    Spells .sum (l ++ (g ++ op.symbol :: (g' ++ r))) (.binary op a b)
  | sum {t : List Char} {e : Expr} : Spells .term t e → Spells .sum t e

/-! ## Where an expression starts and ends -/

/-- A character that could make a name or a number longer. -/
def isWordChar (c : Char) : Bool := isNameChar c || c == '.'

/-- A character that a primary may start with. -/
def isPrimaryStart (c : Char) : Bool :=
  isLetter c || isDigit c || c == '.' || c == '"' || c == '('

theorem number_start {w : List Char} {x : Number} (h : Token.number w = some (x, [])) :
    ∃ c t, w = c :: t ∧ Token.isNumberChar c = true := by
  cases w with
  | nil => cases h
  | cons c t =>
    refine ⟨c, t, rfl, ?_⟩
    by_contra hc
    rw [Token.number_eq_none (by simpa using hc)] at h
    cases h

theorem Spells.primary_start {t : List Char} {e : Expr} (h : Spells .primary t e) :
    ∃ c w, t = c :: w ∧ isPrimaryStart c = true := by
  cases h with
  | number h =>
    obtain ⟨c, w, rfl, hc⟩ := number_start h
    refine ⟨c, w, rfl, ?_⟩
    simp only [Token.isNumberChar, isPrimaryStart, Bool.or_eq_true] at hc ⊢
    rcases hc with h | h <;> simp [h]
  | text s => exact ⟨_, _, rfl, by decide⟩
  | var h =>
    obtain ⟨c, w, hs, hc, -⟩ := h
    exact ⟨c, w, hs, by simp [isPrimaryStart, hc]⟩
  | paren => exact ⟨_, _, rfl, by decide⟩

theorem isGap_of_isPrimaryStart {c : Char} (h : isPrimaryStart c = true) :
    isGap c = false ∧ c ≠ '-' := by
  refine ⟨isGap_eq_false h (by decide) (by decide), ?_⟩
  rintro rfl
  exact absurd h (by decide)

theorem Spells.primary_stopsAt_gap {t : List Char} {e : Expr} (h : Spells .primary t e)
    (rest : List Char) : StopsAt isGap (t ++ rest) := by
  obtain ⟨c, w, rfl, hc⟩ := h.primary_start
  exact Text.stopsAt_cons.2 (isGap_of_isPrimaryStart hc).1

/-- An expression does not start with a blank. -/
theorem Spells.stopsAt_gap {level : Level} {t : List Char} {e : Expr} (h : Spells level t e) :
    ∀ rest, StopsAt isGap (t ++ rest) := by
  induction h with
  | number h => exact (Spells.number h).primary_stopsAt_gap
  | text s => exact (Spells.text s).primary_stopsAt_gap
  | var h => exact (Spells.var h).primary_stopsAt_gap
  | paren hg hg' h _ => exact (Spells.paren hg hg' h).primary_stopsAt_gap
  | negate _ _ _ => exact fun rest => by simp [isGap]
  | factor _ ih => exact ih
  | product _ _ _ _ _ ih _ => exact fun rest => by rw [List.append_assoc]; exact ih _
  | term _ ih => exact ih
  | addition _ _ _ _ _ ih _ => exact fun rest => by rw [List.append_assoc]; exact ih _
  | sum _ ih => exact ih

theorem stopsAt_wordChar {rest : List Char} (h : StopsAt isWordChar rest) :
    StopsAt isNameChar rest ∧ StopsAt Token.isNumberChar rest := by
  constructor
  · intro c hc
    have := h c hc
    simp_all [isWordChar]
  · intro c hc
    have := h c hc
    simp_all [isWordChar, isNameChar, Token.isNumberChar]

/-! ## Primaries and factors -/

namespace Parser

variable {inner : Parser Expr} {rest : List Char}

theorem run_primary (inner : Parser Expr) (s : List Char) :
    (primary inner).run s =
      (((Token.number s).map fun x => (Expr.number x.1, x.2)).or
        (((Token.string s).map fun x => (Expr.text x.1, x.2)).or
          (((Token.name s).map fun x => (Expr.var x.1, x.2)).or
            ((parenthesised inner).run s)))) := by
  simp [primary, firstOf, number, string, identifier]

theorem primary_number {w : List Char} {x : Number} (h : Token.number w = some (x, []))
    (hrest : StopsAt isWordChar rest) :
    (primary inner).run (w ++ rest) = some (.number x, rest) := by
  rw [run_primary, Token.number_append h (stopsAt_wordChar hrest).2]
  rfl

theorem primary_text (s : String) :
    (primary inner).run ('"' :: (Token.escape s.toList ++ '"' :: rest)) = some (.text s, rest) := by
  rw [run_primary, Token.number_eq_none (by simp [Token.isNumberChar, isDigit]),
    Token.string_append]
  rfl

theorem primary_var {name : String} (h : Token.IsName name) (hrest : StopsAt isWordChar rest) :
    (primary inner).run (name.toList ++ rest) = some (.var name, rest) := by
  have hname := Token.name_append h (stopsAt_wordChar hrest).1
  have hquote := h.stopsAt_char (d := '"') (by decide) rest
  rw [run_primary, h.number_eq_none, Token.string_eq_none hquote, hname]
  rfl

theorem primary_paren {g g' t : List Char} {e : Expr} (hg : Blanks g) (hg' : Blanks g')
    (ht : ∀ s, StopsAt isGap (t ++ s)) {r : List Char}
    (hread : inner.run (t ++ (g' ++ ')' :: rest)) = some (e, r))
    (hr : AfterGap r (g' ++ ')' :: rest)) :
    (primary inner).run ('(' :: (g ++ (t ++ (g' ++ ')' :: rest)))) = some (e, rest) := by
  have hparen : (parenthesised inner).run ('(' :: (g ++ (t ++ (g' ++ ')' :: rest)))) =
      some (e, rest) := by
    have hclose : r.dropWhile isGap = ')' :: rest := by
      rw [hr.dropWhile_eq, hg'.dropWhile_append (by simp [isGap])]
    simp [parenthesised, run_word_cons, hg.dropWhile_append (ht _), hread, hclose]
  rw [run_primary, Token.number_eq_none (by simp [Token.isNumberChar, isDigit]),
    Token.string_eq_none (by simp), Token.name_eq_none (by simp [isLetter]), hparen]
  rfl

theorem factor_of_primary {t : List Char} {e : Expr} {c : Char} {w : List Char} (hc : t = c :: w)
    (hstart : isPrimaryStart c = true)
    (h : (primary inner).run (t ++ rest) = some (e, rest)) :
    (factor inner).run (t ++ rest) = some (e, rest) := by
  obtain ⟨hgap, hminus⟩ := isGap_of_isPrimaryStart hstart
  have hnone : (named .minus (word ['-'])).run (t ++ rest) = none := by
    rw [hc, run_named, List.cons_append, run_word_cons, if_neg (Ne.symm hminus)]
  have hdrop : (t ++ rest).dropWhile isGap = t ++ rest := by
    rw [hc]; exact Text.dropWhile_of_stopsAt (Text.stopsAt_cons.2 hgap)
  simp [factor, run_optional_none hnone, hdrop, h]

theorem factor_negate {g t : List Char} {e : Expr} (hg : Blanks g)
    (ht : StopsAt isGap (t ++ rest)) (h : (primary inner).run (t ++ rest) = some (e, rest)) :
    (factor inner).run ('-' :: (g ++ (t ++ rest))) = some (.negate e, rest) := by
  have hsome : (named .minus (word ['-'])).run ('-' :: (g ++ (t ++ rest))) =
      some ((), g ++ (t ++ rest)) := by
    rw [run_named, run_word_cons, if_pos rfl]
  simp [factor, run_optional_some hsome, hg.dropWhile_append ht, h]

/-! ## Operators of one level -/

/-- Reads the text as the expression in front of whatever is `ok` to follow it. -/
def Reads (p : Parser Expr) (ok : List Char → Prop) (t : List Char) (e : Expr) : Prop :=
  ∀ rest, ok rest → ∃ r, p.run (t ++ rest) = some (e, r) ∧ AfterGap r rest

/-- An operator with its operand to the right. -/
def operation (op : Parser BinOp) (operand : Parser Expr) : Parser (BinOp × Expr) := do
  gap
  let o ← op
  gap
  let e ← operand
  pure (o, e)

theorem run_operation_afterGap (op : Parser BinOp) (operand : Parser Expr) (s : List Char) :
    (operation op operand).run (s.dropWhile isGap) = (operation op operand).run s := by
  simp only [operation, run_bind, run_gap, Option.bind_some]
  rw [Text.dropWhile_of_stopsAt (Text.stopsAt_dropWhile isGap s)]

/-- A first operand and operations behind it: the text is their texts in a row, and the loop that
reads operations takes these off before any that follow. -/
structure Chained (op : Parser BinOp) (operand : Parser Expr) (ok : List Char → Prop)
    (t : List Char) (e : Expr) : Prop where
  split : ∃ t₀ t₁ first rest, t = t₀ ++ t₁ ∧ e = chain first rest ∧ Reads operand ok t₀ first ∧
    (∀ s, ok s → ok (t₁ ++ s)) ∧
    ∀ s as r, ok s → Runs (operation op operand) s as r →
      ∃ r', Runs (operation op operand) (t₁ ++ s) (rest ++ as) r' ∧ AfterGap r' r

variable {op : Parser BinOp} {operand : Parser Expr} {ok : List Char → Prop} {t : List Char}
  {e : Expr}

theorem Chained.single (h : Reads operand ok t e) : Chained op operand ok t e :=
  ⟨t, [], e, [], by simp, rfl, h, fun s hs => hs, fun s as r _ hr => ⟨r, hr, .refl r⟩⟩

theorem chain_snoc (first : Expr) (rest : List (BinOp × Expr)) (o : BinOp) (e : Expr) :
    chain first (rest ++ [(o, e)]) = .binary o (chain first rest) e := by
  simp [chain]

/-- One more operation behind a chain. -/
theorem Chained.snoc {g g' r : List Char} {o : BinOp} {a b : Expr} (h : Chained op operand ok t a)
    (hg : Blanks g) (hg' : Blanks g')
    (hop : ∀ s, op.run (o.symbol :: s) = some (o, s))
    (hok : ∀ s, ok (g ++ o.symbol :: s)) (hsymbol : isGap o.symbol = false)
    (hr : Reads operand ok r b) (hstart : ∀ s, StopsAt isGap (r ++ s)) :
    Chained op operand ok (t ++ (g ++ o.symbol :: (g' ++ r))) (.binary o a b) := by
  obtain ⟨t₀, t₁, first, rest, rfl, rfl, hfirst, hok₁, hruns⟩ := h
  refine ⟨t₀, t₁ ++ (g ++ o.symbol :: (g' ++ r)), first, rest ++ [(o, b)], by simp,
    (chain_snoc first rest o b).symm, hfirst, fun s _ => ?_, fun s as end' hs hrun => ?_⟩
  · rw [List.append_assoc, List.append_assoc, List.cons_append]
    exact hok₁ _ (hok _)
  · obtain ⟨s', hread, hs'⟩ := hr s hs
    obtain ⟨end₁, hrun₁, hend₁⟩ := hrun.afterGap (run_operation_afterGap op operand) hs'
    -- the new operation comes first, then what follows it
    have hgap : (g ++ o.symbol :: (g' ++ (r ++ s))).dropWhile isGap =
        o.symbol :: (g' ++ (r ++ s)) :=
      hg.dropWhile_append (Text.stopsAt_cons.2 hsymbol)
    have hstep : (operation op operand).run (g ++ o.symbol :: (g' ++ (r ++ s))) =
        some ((o, b), s') := by
      simp [operation, hgap, hop, hg'.dropWhile_append (hstart s), hread]
    have hlen : s'.length < ((g ++ o.symbol :: (g' ++ (r ++ s))).dropWhile isGap).length := by
      have := hs'.length_le
      rw [hgap]
      simp
      omega
    obtain ⟨end₂, hrun₂, hend₂⟩ := hruns _ _ _ (hok _) (.step hstep hlen hrun₁)
    exact ⟨end₂, by simpa using hrun₂, hend₂.trans hend₁⟩

/-- A chain is read in full where its loop stops. -/
theorem Chained.reads (h : Chained op operand ok t e) {s : List Char} (hs : ok s)
    (hstop : op.run (s.dropWhile isGap) = none) :
    ∃ r, (do let first ← operand; gap; let rest ← operands op operand; pure (chain first rest) :
        Parser Expr).run (t ++ s) = some (e, r) ∧ AfterGap r s := by
  obtain ⟨t₀, t₁, first, rest, rfl, rfl, hfirst, hok₁, hruns⟩ := h
  obtain ⟨r₀, hread, hr₀⟩ := hfirst (t₁ ++ s) (hok₁ s hs)
  have hdone : Runs (operation op operand) s [] s :=
    .done (by simp [operation, hstop])
  obtain ⟨r₁, hrun₁, hr₁⟩ := hruns s [] s hs hdone
  obtain ⟨r₂, hrun₂, hr₂⟩ := hrun₁.afterGap (run_operation_afterGap op operand)
    ((afterGap_dropWhile r₀).trans hr₀)
  have hmany := hrun₂.run_many
  refine ⟨r₂, ?_, hr₂.trans hr₁⟩
  rw [List.append_nil] at hmany
  rw [List.append_assoc]
  simp only [run_bind, hread, Option.bind_some, run_gap]
  show ((many (operation op operand)).run (r₀.dropWhile isGap)).bind _ = _
  rw [hmany]
  rfl

/-! ## Every level -/

/-- What may follow an operand of a product. -/
def FactorEnd (s : List Char) : Prop := StopsAt isWordChar s

/-- What may follow an operand of a sum. -/
def TermEnd (s : List Char) : Prop :=
  StopsAt isWordChar s ∧ productOperator.run (s.dropWhile isGap) = none

/-- What may follow an expression. -/
def SumEnd (s : List Char) : Prop := TermEnd s ∧ sumOperator.run (s.dropWhile isGap) = none

/-- The parser of what stands in parentheses, with `depth` more of them to open. -/
def nested (depth : Nat) : Parser Expr := delay fun _ => expression depth

/-- What the parser of a level does with a text: the parsers of operands read it, and those of
operators go on to read a chain. -/
def ReadAt (depth : Nat) : Level → List Char → Expr → Prop
  | .primary, t, e => ∀ rest, FactorEnd rest →
    (primary (nested depth)).run (t ++ rest) = some (e, rest)
  | .factor, t, e => Reads (factor (nested depth)) FactorEnd t e
  | .term, t, e => Chained productOperator (factor (nested depth)) FactorEnd t e
  | .sum, t, e => Chained sumOperator (term (nested depth)) TermEnd t e

theorem run_productOperator {o : BinOp} (h : o.isSum = false) (s : List Char) :
    productOperator.run (o.symbol :: s) = some (o, s) := by
  cases o with
  | mul | div | rem => rfl
  | add | sub => cases h

theorem run_sumOperator {o : BinOp} (h : o.isSum = true) (s : List Char) :
    sumOperator.run (o.symbol :: s) = some (o, s) := by
  cases o with
  | add | sub => rfl
  | mul | div | rem => cases h

theorem symbol_not_gap (o : BinOp) : isGap o.symbol = false := by
  cases o <;> rfl

theorem isWordChar_of_isGap {c : Char} (h : isGap c = true) : isWordChar c = false :=
  eq_false_of_isGap h rfl rfl

theorem stopsAt_blanks {g : List Char} (hg : Blanks g) (o : BinOp) (s : List Char) :
    StopsAt isWordChar (g ++ o.symbol :: s) := by
  cases g with
  | nil => cases o <;> simp [BinOp.symbol] <;> rfl
  | cons c g => exact Text.stopsAt_cons.2 (isWordChar_of_isGap (hg c (by simp)))

theorem termEnd_sum {g : List Char} (hg : Blanks g) {o : BinOp} (h : o.isSum = true)
    (s : List Char) : TermEnd (g ++ o.symbol :: s) := by
  refine ⟨stopsAt_blanks hg o s, ?_⟩
  rw [hg.dropWhile_append (Text.stopsAt_cons.2 (symbol_not_gap o))]
  cases o with
  | add | sub => rfl
  | mul | div | rem => cases h

theorem reads_term {depth : Nat} {t : List Char} {e : Expr}
    (h : Chained productOperator (factor (nested depth)) FactorEnd t e) :
    Reads (term (nested depth)) TermEnd t e :=
  fun _ hs => h.reads hs.1 hs.2

theorem reads_sum {depth : Nat} {t : List Char} {e : Expr}
    (h : Chained sumOperator (term (nested depth)) TermEnd t e) :
    Reads (expression (depth + 1)) SumEnd t e :=
  fun _ hs => h.reads hs.1 hs.2

theorem sumEnd_paren {g : List Char} (hg : Blanks g) (s : List Char) : SumEnd (g ++ ')' :: s) := by
  have hdrop : (g ++ ')' :: s).dropWhile isGap = ')' :: s := hg.dropWhile_append (by simp [isGap])
  refine ⟨⟨?_, by rw [hdrop]; rfl⟩, by rw [hdrop]; rfl⟩
  cases g with
  | nil => exact Text.stopsAt_cons.2 rfl
  | cons c g => exact Text.stopsAt_cons.2 (isWordChar_of_isGap (hg c (by simp)))

theorem readAt_of_spells {level : Level} {t : List Char} {e : Expr} (h : Spells level t e) :
    ∀ depth, t.length ≤ depth + 1 → ReadAt depth level t e := by
  induction h with
  | number hx => exact fun _ _ rest hrest => primary_number hx hrest
  | text s =>
    intro _ _ rest _
    simpa using primary_text s
  | var hname => exact fun _ _ rest hrest => primary_var hname hrest
  | @paren g g' t e hg hg' ht ih =>
    intro depth hlen rest hrest
    simp only [List.length_cons, List.length_append, List.length_nil] at hlen
    -- the depth inside is one less, and the text inside is shorter by the parentheses
    obtain ⟨depth, rfl⟩ : ∃ n, depth = n + 1 := ⟨depth - 1, by omega⟩
    have hinner := reads_sum (ih depth (by omega))
    obtain ⟨r, hread, hr⟩ := hinner (g' ++ ')' :: rest) (sumEnd_paren hg' rest)
    have hprimary : (primary (nested (depth + 1))).run _ = _ :=
      primary_paren hg hg' ht.stopsAt_gap hread hr
    simpa using hprimary
  | @negate g t e hg ht ih =>
    intro depth hlen rest hrest
    have hprimary := ih depth (by simp at hlen; omega) rest hrest
    refine ⟨rest, ?_, .refl rest⟩
    simpa using factor_negate hg (ht.stopsAt_gap rest) hprimary
  | factor ht ih =>
    intro depth hlen rest hrest
    obtain ⟨c, w, hc, hstart⟩ := ht.primary_start
    exact ⟨rest, factor_of_primary hc hstart (ih depth hlen rest hrest), .refl rest⟩
  | @product o l g g' r a b ho hg hg' hl hr ihl ihr =>
    intro depth hlen
    simp only [List.length_append, List.length_cons] at hlen
    exact (ihl depth (by omega)).snoc hg hg' (run_productOperator ho) (stopsAt_blanks hg o)
      (symbol_not_gap o) (ihr depth (by omega)) hr.stopsAt_gap
  | term ht ih => exact fun depth hlen => .single (ih depth hlen)
  | @addition o l g g' r a b ho hg hg' hl hr ihl ihr =>
    intro depth hlen
    simp only [List.length_append, List.length_cons] at hlen
    exact (ihl depth (by omega)).snoc hg hg' (run_sumOperator ho) (termEnd_sum hg ho)
      (symbol_not_gap o) (reads_term (ihr depth (by omega))) hr.stopsAt_gap
  | sum ht ih => exact fun depth hlen => .single (reads_term (ih depth hlen))

/-- **A spelled expression is read back**, if the depth allows for as many parentheses as the text
has characters. -/
theorem expression_of_spells {t : List Char} {e : Expr} (h : Spells .sum t e) {depth : Nat}
    (hdepth : t.length ≤ depth) : Reads (expression depth) SumEnd t e := by
  cases depth with
  | zero =>
    have hnil : t = [] := by simpa using hdepth
    have := h.stopsAt_gap [' ']
    rw [hnil] at this
    simp [isGap] at this
  | succ depth => exact reads_sum (readAt_of_spells h depth hdepth)

end Parser

end Grammar

end TaskRunner
