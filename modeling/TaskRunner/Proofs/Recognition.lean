import TaskRunner.Proofs.Statements

/-!
# What a parser has taken

The parsers of `Reading` and `Statements` are shown to read what they should. Here it is the other
way round: from the fact that a parser has read something, what stands at the front of the text. All
parsers take characters off the front only (`Shrinks`), and those that are repeated take more than
blanks (`Strict`), so that repetition is a run up to where nothing fits (`run_many_iff`).
-/
namespace TaskRunner.Grammar

open Text (StopsAt)

/-! ## Tokens -/

namespace Token

variable {s r : List Char}

theorem name_eq_some_iff {name : String} :
    Token.name s = some (name, r) ↔ IsName name ∧ s = name.toList ++ r ∧ StopsAt isNameChar r := by
  constructor
  · intro h
    cases s with
    | nil => cases h
    | cons c w =>
      rw [Token.name] at h
      split at h
      · rename_i hc
        obtain ⟨rfl, rfl⟩ := Prod.mk.inj (Option.some.inj h)
        refine ⟨⟨c, w.takeWhile isNameChar, by simp, hc, fun d hd => List.mem_takeWhile_imp hd⟩, ?_,
          Text.stopsAt_dropWhile isNameChar w⟩
        rw [String.toList_ofList, List.cons_append, List.takeWhile_append_dropWhile]
      · cases h
  · rintro ⟨hname, rfl, hr⟩
    exact name_append hname hr

theorem keyword_eq_some_iff {w : List Char} :
    keyword w s = some ((), r) ↔ s = w ++ r ∧ StopsAt isNameChar r := by
  constructor
  · intro h
    unfold keyword at h
    split at h
    · rename_i hpre
      obtain ⟨t, rfl⟩ := List.isPrefixOf_iff_prefix.1 hpre
      rw [List.drop_left] at h
      split at h
      · cases h
        exact ⟨rfl, Text.stopsAt_nil⟩
      · split at h
        · cases h
        · rename_i hc
          cases h
          exact ⟨rfl, Text.stopsAt_cons.2 (by simpa using hc)⟩
    · cases h
  · rintro ⟨rfl, hr⟩
    exact keyword_append hr

theorem helpText_suffix (s : List Char) : (helpText s).2 <:+ s := by
  fun_induction helpText s with
  | case1 => exact List.suffix_refl _
  | case2 s => exact List.suffix_refl _
  | case3 c s _ t r h ih => rw [h] at ih; exact ih.trans (List.suffix_cons _ _)

theorem helpBlock_eq_some_iff {text : String} :
    helpBlock s = some (text, r) ↔
      ∃ v u w, s = '@' :: '@' :: '@' :: v ∧ lineEnd (v.dropWhile isGap) = some ((), u) ∧
        helpText u = (w, '@' :: '@' :: '@' :: r) ∧ text = String.ofList (dropLastLineFeed w) := by
  constructor
  · intro h
    unfold helpBlock at h
    split at h
    · rename_i v
      split at h
      · cases h
      · rename_i u hu
        split at h
        · rename_i w r' hw
          cases h
          exact ⟨v, u, w, rfl, hu, hw, rfl⟩
        · cases h
    · cases h
  · rintro ⟨v, u, w, rfl, hu, hw, rfl⟩
    simp [helpBlock, hu, hw]

theorem lineEnd_eq_some_iff :
    lineEnd s = some ((), r) ↔
      s = '\n' :: r ∨ s = '\r' :: '\n' :: r ∨ s = '\r' :: r ∧ StopsAt (· == '\n') r := by
  constructor
  · intro h
    unfold lineEnd at h
    split at h
    · cases h; exact .inl rfl
    · cases h; exact .inr (.inl rfl)
    · rename_i w hw
      cases h
      refine .inr (.inr ⟨rfl, fun c hc => ?_⟩)
      obtain ⟨v, rfl⟩ := List.head?_eq_some_iff.1 hc
      simpa using fun hc' => hw v (by rw [hc'])
    · cases h
  · rintro (rfl | rfl | ⟨rfl, hr⟩)
    · rfl
    · rfl
    · unfold lineEnd
      split
      · rename_i he; cases he
      · rename_i he; cases he; simp at hr
      · rename_i he; cases he; rfl
      · rename_i hne; exact absurd rfl (hne r)

/-- A line end is at least one character. -/
theorem lineEnd_shrinks (h : lineEnd s = some ((), r)) :
    ∃ c w, isLineEnd c = true ∧ s = c :: w ∧ r <:+ w := by
  rcases lineEnd_eq_some_iff.1 h with rfl | rfl | ⟨rfl, -⟩
  · exact ⟨_, _, by decide, rfl, List.suffix_refl _⟩
  · exact ⟨_, _, by decide, rfl, List.suffix_cons _ _⟩
  · exact ⟨_, _, by decide, rfl, List.suffix_refl _⟩

end Token

/-! ## What is left of a text is an end of it -/

namespace Parser

variable {α β : Type}

/-- Takes characters off the front of a text only. -/
def Shrinks (p : Parser α) : Prop :=
  ∀ ⦃s : List Char⦄ ⦃a : α⦄ ⦃r : List Char⦄, p.run s = some (a, r) → r <:+ s

namespace Shrinks

theorem pure (a : α) : Shrinks (pure a : Parser α) := by
  intro s b r h
  cases h
  exact List.suffix_refl s

theorem bind {p : Parser α} {f : α → Parser β} (hp : Shrinks p) (hf : ∀ a, Shrinks (f a)) :
    Shrinks (p >>= f) := by
  intro s b r h
  rw [run_bind, Option.bind_eq_some_iff] at h
  obtain ⟨⟨a, u⟩, hu, hr⟩ := h
  exact (hf a hr).trans (hp hu)

theorem map {p : Parser α} (f : α → β) (hp : Shrinks p) : Shrinks (f <$> p) := by
  intro s b r h
  rw [run_map, Option.map_eq_some_iff] at h
  obtain ⟨⟨a, u⟩, hu, he⟩ := h
  cases he
  exact hp hu

theorem orElse {p q : Parser α} (hp : Shrinks p) (hq : Shrinks q) : Shrinks (orElse p q) := by
  intro s a r h
  rw [run_orElse, Option.or_eq_some_iff] at h
  rcases h with h | ⟨-, h⟩
  · exact hp h
  · exact hq h

theorem firstOf : ∀ {ps : List (Parser α)}, (∀ p ∈ ps, Shrinks p) → Shrinks (firstOf ps)
  | [], _ => fun _ _ _ h => by cases h
  | [p], h => h p (by simp)
  | p :: q :: ps, h => orElse (h p (by simp)) (firstOf fun p' hp' => h p' (by simp [hp']))

theorem optional {p : Parser α} (hp : Shrinks p) : Shrinks (optional p) := by
  intro s a r h
  cases hs : p.run s with
  | none =>
    rw [run_optional_none hs] at h
    cases h
    exact List.suffix_refl s
  | some x =>
    rw [run_optional_some hs] at h
    cases h
    exact hp hs

end Shrinks

/-- Takes more than blanks off the text, whenever it takes anything. -/
def Strict (p : Parser α) : Prop :=
  ∀ ⦃s : List Char⦄ ⦃a : α⦄ ⦃r : List Char⦄,
    p.run s = some (a, r) → r.length < (s.dropWhile isGap).length

theorem runs_of_upTo {γ : Type} {p : Parser α} (hp : Strict p) : ∀ (bound : List γ)
    {s r : List Char} {as : List α}, s.length ≤ bound.length →
    (p.upTo bound).run s = some (as, r) → Runs p s as r
  | bound, s, r, as, hb, h => by
    cases hs : p.run s with
    | none =>
      have hdone : (p.upTo bound).run s = some ([], s) := by cases bound <;> simp [upTo, hs]
      rw [hdone] at h
      cases h
      exact .done hs
    | some x =>
      obtain ⟨a, u⟩ := x
      have hlt := hp hs
      have hle := (List.dropWhile_suffix isGap (l := s)).length_le
      cases bound with
      | nil =>
        rw [List.length_nil] at hb
        omega
      | cons b bound =>
        have hu : u.length ≤ bound.length := by
          rw [List.length_cons] at hb
          omega
        simp only [upTo, hs] at h
        split at h
        · cases h
        · rename_i as' r' hrest
          cases h
          exact .step hs hlt (runs_of_upTo hp bound hu hrest)

/-- What `many` has read are matches in a row, up to where there is no other. -/
theorem runs_of_many {p : Parser α} (hp : Strict p) {s r : List Char} {as : List α}
    (h : (many p).run s = some (as, r)) : Runs p s as r :=
  runs_of_upTo hp s (Nat.le_refl _) h

theorem run_many_iff {p : Parser α} (hp : Strict p) {s r : List Char} {as : List α} :
    (many p).run s = some (as, r) ↔ Runs p s as r :=
  ⟨runs_of_many hp, Runs.run_many⟩

theorem Runs.suffix {p : Parser α} (hp : Shrinks p) {s r : List Char} {as : List α}
    (h : Runs p s as r) : r <:+ s := by
  induction h with
  | done _ => exact List.suffix_refl _
  | step hstep _ _ ih => exact ih.trans (hp hstep)

theorem Runs.stops {p : Parser α} {s r : List Char} {as : List α} (h : Runs p s as r) :
    p.run r = none := by
  induction h with
  | done h => exact h
  | step _ _ _ ih => exact ih

theorem Shrinks.many {p : Parser α} (hp : Shrinks p) (hs : Strict p) : Shrinks (many p) :=
  fun _ _ _ h => (runs_of_many hs h).suffix hp

/-! ## Parts of a line -/

theorem run_optional_iff {p : Parser α} {s r : List Char} {o : Option α} :
    (Parser.optional p).run s = some (o, r) ↔
      (∃ a, p.run s = some (a, r) ∧ o = some a) ∨ p.run s = none ∧ o = none ∧ r = s := by
  cases hs : p.run s with
  | none =>
    rw [run_optional_none hs]
    simp [eq_comm]
  | some x =>
    obtain ⟨a, u⟩ := x
    rw [run_optional_some hs]
    simp
    grind

theorem run_word_iff {w s r : List Char} {x : Unit} :
    (word w).run s = some (x, r) ↔ s = w ++ r := by
  constructor
  · intro h
    simp only [word, run_silent] at h
    split at h
    · rename_i hpre
      obtain ⟨t, rfl⟩ := List.isPrefixOf_iff_prefix.1 hpre
      cases h
      simp
    · cases h
  · rintro rfl
    exact run_word w r

/-- What is behind the first character after some blanks. -/
theorem suffix_of_dropGap {s r : List Char} {c : Char} (h : s.dropWhile isGap = c :: r) : r <:+ s :=
  (h ▸ List.suffix_cons c r).trans (List.dropWhile_suffix isGap)

theorem gap_shrinks : Shrinks gap := by
  intro s a r h
  cases h
  exact List.dropWhile_suffix _

theorem word_shrinks (w : List Char) : Shrinks (word w) := by
  intro s a r h
  rw [run_word_iff.1 h]
  exact List.suffix_append w r

theorem identifier_shrinks : Shrinks identifier := by
  intro s a r h
  rw [(Token.name_eq_some_iff.1 h).2.1]
  exact List.suffix_append _ r

theorem number_shrinks : Shrinks number := by
  intro s x r h
  rcases Token.number_forms h with ⟨d, rfl, -⟩ | ⟨d, f, rfl, -⟩
  · exact List.suffix_append d r
  · exact ⟨d ++ '.' :: f, by simp⟩

theorem string_shrinks : Shrinks string := by
  intro s x r h
  rw [Token.string_eq_some_iff.1 h]
  exact ⟨'"' :: (Token.escape x.toList ++ ['"']), by simp⟩

/-! ## Texts between two marks -/

/-- A text up to a closing mark. Strings and help blocks are of this form. -/
def enclosed (opening : Parser Unit) (text : List Char → List Char × List Char)
    (closing : List Char) (value : List Char → List Char) : Parser String := do
  opening
  let inside ← silent fun s => some (text s)
  word closing
  pure (String.ofList (value inside))

theorem run_enclosed_iff {opening : Parser Unit} {text : List Char → List Char × List Char}
    {closing : List Char} {value : List Char → List Char} {s r : List Char} {x : String} :
    (enclosed opening text closing value).run s = some (x, r) ↔
      ∃ u inside, opening.run s = some ((), u) ∧ text u = (inside, closing ++ r) ∧
        x = String.ofList (value inside) := by
  simp only [enclosed, run_bind, run_silent, run_pure, Option.bind_eq_some_iff, Prod.exists,
    run_word_iff]
  constructor
  · rintro ⟨_, u, hu, inside, v, htext, _, w, hv, hx⟩
    cases hx
    exact ⟨u, inside, hu, by rw [← hv]; exact Option.some.inj htext, rfl⟩
  · rintro ⟨u, inside, hu, htext, rfl⟩
    exact ⟨(), u, hu, inside, closing ++ r, congrArg some htext, (), r, rfl, rfl⟩

theorem run_string_enclosed (s : List Char) :
    string.run s = (enclosed (word ['"']) Token.stringText ['"'] Token.unescape).run s := by
  refine Option.ext ?_
  rintro ⟨x, r⟩
  rw [run_enclosed_iff]
  simp only [run_word_iff]
  constructor
  · intro h
    obtain rfl := Token.string_eq_some_iff.1 h
    have hend : Token.stringText ('"' :: r) = ([], '"' :: r) := by simp [Token.stringText]
    exact ⟨_, Token.escape x.toList, rfl, Token.stringText_escape hend _,
      by rw [Token.unescape_escape, String.ofList_toList]⟩
  · rintro ⟨u, inside, rfl, hu, rfl⟩
    simp [string, Token.string, hu]

/-! ## Expressions -/

variable {inner : Parser Expr} {op : Parser BinOp} {operand : Parser Expr} {s r : List Char}
  {e : Expr}

theorem run_parenthesised_iff : (parenthesised inner).run s = some (e, r) ↔
    ∃ w u, s = '(' :: w ∧ inner.run (w.dropWhile isGap) = some (e, u) ∧
      u.dropWhile isGap = ')' :: r := by
  simp only [parenthesised, run_bind, run_gap, run_pure, Option.bind_eq_some_iff, Prod.exists,
    run_word_iff, Option.bind_some]
  constructor
  · rintro ⟨_, w, rfl, e', u, hu, _, v, hv, he⟩
    cases he
    exact ⟨w, u, rfl, hu, hv⟩
  · rintro ⟨w, u, rfl, hu, hv⟩
    exact ⟨(), w, rfl, e, u, hu, (), r, hv, rfl⟩

/-- The first character tells which kind of operand it is. -/
theorem run_primary_iff : (primary inner).run s = some (e, r) ↔
    (∃ x, e = .number x ∧ Token.number s = some (x, r)) ∨
    (∃ x, e = .text x ∧ Token.string s = some (x, r)) ∨
    (∃ x, e = .var x ∧ Token.name s = some (x, r)) ∨ (parenthesised inner).run s = some (e, r) := by
  rw [run_primary]
  constructor
  · intro h
    simp only [Option.or_eq_some_iff, Option.map_eq_some_iff, Prod.exists, Prod.mk.injEq] at h
    rcases h with ⟨x, _, h, rfl, rfl⟩ | ⟨-, ⟨x, _, h, rfl, rfl⟩ | ⟨-, ⟨x, _, h, rfl, rfl⟩ | ⟨-, h⟩⟩⟩
    · exact .inl ⟨x, rfl, h⟩
    · exact .inr (.inl ⟨x, rfl, h⟩)
    · exact .inr (.inr (.inl ⟨x, rfl, h⟩))
    · exact .inr (.inr (.inr h))
  · rintro (⟨x, rfl, h⟩ | ⟨x, rfl, h⟩ | ⟨x, rfl, h⟩ | h)
    · rw [h]
      rfl
    · obtain rfl := Token.string_eq_some_iff.1 h
      rw [Token.number_eq_none (by simp [Token.isNumberChar, isDigit]), h]
      rfl
    · obtain ⟨hname, rfl, -⟩ := Token.name_eq_some_iff.1 h
      rw [hname.number_eq_none, Token.string_eq_none (hname.stopsAt_char (by decide) r), h]
      rfl
    · obtain ⟨w, u, rfl, -⟩ := run_parenthesised_iff.1 h
      rw [Token.number_eq_none (by simp [Token.isNumberChar, isDigit]),
        Token.string_eq_none (by simp), Token.name_eq_none (by simp [isLetter]), h]
      rfl

theorem run_factor_minus (inner : Parser Expr) (w : List Char) :
    (factor inner).run ('-' :: w) =
      ((primary inner).run (w.dropWhile isGap)).map fun x => (.negate x.1, x.2) := by
  have hsome : (named .minus (word ['-'])).run ('-' :: w) = some ((), w) := run_word ['-'] w
  simp only [factor, run_named, run_bind, run_optional_some hsome, Option.bind_some, run_gap,
    run_pure]
  cases (primary inner).run (w.dropWhile isGap) <;> rfl

theorem run_factor_plain (inner : Parser Expr) (h : StopsAt (· == '-') s) :
    (factor inner).run s = (primary inner).run (s.dropWhile isGap) := by
  have hnone : (named .minus (word ['-'])).run s = none := run_word_of_stopsAt h
  simp only [factor, run_named, run_bind, run_optional_none hnone, Option.bind_some, run_gap,
    run_pure]
  cases (primary inner).run (s.dropWhile isGap) <;> rfl

/-- An operand and what goes on with operators behind it. A term and a sum are read as this is, by
definition. -/
def level (op : Parser BinOp) (operand : Parser Expr) : Parser Expr := do
  let first ← operand
  gap
  let rest ← many (operation op operand)
  pure (chain first rest)

/-- An operator is one character, whatever is behind it. -/
structure IsOperator (op : Parser BinOp) (symbol? : Char → Option BinOp) : Prop where
  nil : op.run [] = none
  cons : ∀ c s, op.run (c :: s) = (symbol? c).map fun o => (o, s)

def sumSymbol? (c : Char) : Option BinOp :=
  if c = '+' then some .add else if c = '-' then some .sub else none

def productSymbol? (c : Char) : Option BinOp :=
  if c = '*' then some .mul else if c = '/' then some .div else if c = '%' then some .rem else none

theorem isOperator_sum : IsOperator sumOperator sumSymbol? where
  nil := rfl
  cons c s := by
    by_cases h₁ : c = '+'
    · subst h₁; rfl
    by_cases h₂ : c = '-'
    · subst h₂; rfl
    simp [sumOperator, operator, sumSymbol?, h₁, h₂, Ne.symm h₁, Ne.symm h₂]

theorem isOperator_product : IsOperator productOperator productSymbol? where
  nil := rfl
  cons c s := by
    by_cases h₁ : c = '*'
    · subst h₁; rfl
    by_cases h₂ : c = '/'
    · subst h₂; rfl
    by_cases h₃ : c = '%'
    · subst h₃; rfl
    simp [productOperator, operator, productSymbol?, h₁, h₂, h₃, Ne.symm h₁, Ne.symm h₂, Ne.symm h₃]

theorem IsOperator.eq_cons {symbol? : Char → Option BinOp} (h : IsOperator op symbol?) {o : BinOp}
    (hs : op.run s = some (o, r)) : ∃ c, s = c :: r ∧ symbol? c = some o := by
  cases s with
  | nil =>
    rw [h.nil] at hs
    cases hs
  | cons c w =>
    rw [h.cons, Option.map_eq_some_iff] at hs
    obtain ⟨o', ho, he⟩ := hs
    cases he
    exact ⟨c, rfl, ho⟩

theorem IsOperator.shrinks {symbol? : Char → Option BinOp} (h : IsOperator op symbol?) :
    Shrinks op := by
  intro s o r hs
  obtain ⟨c, rfl, -⟩ := h.eq_cons hs
  exact List.suffix_cons c r

theorem run_operation_iff {x : BinOp × Expr} : (operation op operand).run s = some (x, r) ↔
    ∃ u, op.run (s.dropWhile isGap) = some (x.1, u) ∧
      operand.run (u.dropWhile isGap) = some (x.2, r) := by
  simp only [operation, run_bind, run_gap, run_pure, Option.bind_some, Option.bind_eq_some_iff,
    Prod.exists]
  constructor
  · rintro ⟨o, u, ho, e, v, he, hx⟩
    cases hx
    exact ⟨u, ho, he⟩
  · rintro ⟨u, ho, he⟩
    exact ⟨x.1, u, ho, x.2, r, he, rfl⟩

theorem operation_shrinks {symbol? : Char → Option BinOp} (hop : IsOperator op symbol?)
    (h : Shrinks operand) : Shrinks (operation op operand) :=
  gap_shrinks.bind fun _ => hop.shrinks.bind fun _ => gap_shrinks.bind fun _ =>
    h.bind fun _ => .pure _

theorem operation_strict {symbol? : Char → Option BinOp} (hop : IsOperator op symbol?)
    (h : Shrinks operand) : Strict (operation op operand) := by
  intro s x r hs
  obtain ⟨u, ho, he⟩ := run_operation_iff.1 hs
  obtain ⟨c, hc, -⟩ := hop.eq_cons ho
  have hle := ((h he).trans (List.dropWhile_suffix isGap)).length_le
  rw [hc, List.length_cons]
  omega

theorem level_shrinks {symbol? : Char → Option BinOp} (hop : IsOperator op symbol?)
    (h : Shrinks operand) : Shrinks (level op operand) :=
  h.bind fun _ => gap_shrinks.bind fun _ =>
    ((operation_shrinks hop h).many (operation_strict hop h)).bind fun _ => .pure _

theorem run_level_iff {symbol? : Char → Option BinOp} (hop : IsOperator op symbol?)
    (h : Shrinks operand) : (level op operand).run s = some (e, r) ↔
      ∃ first u rest, operand.run s = some (first, u) ∧
        Runs (operation op operand) (u.dropWhile isGap) rest r ∧ e = chain first rest := by
  simp only [level, run_bind, run_gap, run_pure, Option.bind_some, Option.bind_eq_some_iff,
    Prod.exists, run_many_iff (operation_strict hop h)]
  constructor
  · rintro ⟨first, u, hfirst, rest, v, hrest, he⟩
    cases he
    exact ⟨first, u, rest, hfirst, hrest, rfl⟩
  · rintro ⟨first, u, rest, hfirst, hrest, rfl⟩
    exact ⟨first, u, hfirst, rest, r, hrest, rfl⟩

theorem primary_shrinks (h : Shrinks inner) : Shrinks (primary inner) := by
  refine Shrinks.firstOf fun p hp => ?_
  simp only [List.mem_cons, List.not_mem_nil, or_false] at hp
  rcases hp with rfl | rfl | rfl | rfl
  · exact number_shrinks.map _
  · exact string_shrinks.map _
  · exact identifier_shrinks.map _
  · exact (word_shrinks _).bind fun _ => gap_shrinks.bind fun _ => h.bind fun _ =>
      gap_shrinks.bind fun _ => (word_shrinks _).bind fun _ => .pure _

theorem factor_shrinks (h : Shrinks inner) : Shrinks (factor inner) :=
  (word_shrinks ['-']).optional.bind fun _ => gap_shrinks.bind fun _ =>
    (primary_shrinks h).bind fun _ => .pure _

theorem term_shrinks (h : Shrinks inner) : Shrinks (term inner) :=
  level_shrinks isOperator_product (factor_shrinks h)

theorem expression_shrinks : ∀ depth, Shrinks (expression depth)
  | 0 => fun _ _ _ h => by cases h
  | depth + 1 => level_shrinks isOperator_sum (term_shrinks (expression_shrinks depth))

end Parser

end TaskRunner.Grammar
