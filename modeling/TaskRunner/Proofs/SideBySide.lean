import Mathlib.Data.List.Forall2
import TaskRunner.Proofs.Phrases
import TaskRunner.Proofs.Rewording

/-!
# Two readings side by side

Two parsers are put side by side on two texts. `Pairs` says that they fail together or get on
together, and carries a relation between what is left of the one text and what is left of the other.
It goes through every way to put parsers together, so two readings of a script agree as soon as they
agree on its tokens (`SameTokens.script`).

The first use of this is that the bound on the depth makes no difference once it is more than the
length of the text (`script_depth`).
-/
namespace TaskRunner.Grammar.Parser

/-! ## Parsers put together -/

variable {α β γ δ : Type} {R R' R'' : List Char → List Char → Prop}

/-- From texts that are related by `R` the two parsers fail together, or both give a result: what
the second gives stands for what the first gives by `f`, and what is left is related by `R'`. -/
def Pairs (R R' : List Char → List Char → Prop) (f : β → α) (p : Parser α) (q : Parser β) : Prop :=
  ∀ ⦃s s' : List Char⦄, R s s' → (p.run s = none ∧ q.run s' = none) ∨
    ∃ b r r', p.run s = some (f b, r) ∧ q.run s' = some (b, r') ∧ R' r r'

namespace Pairs

variable {f f' : β → α} {g : δ → γ} {p : Parser α} {q : Parser β}

theorem congr (h : Pairs R R' f p q) (hf : f = f') : Pairs R R' f' p q := hf ▸ h

theorem named {c : Construct} (h : Pairs R R' f p q) : Pairs R R' f (named c p) (named c q) := h

/-- What is left may be related in another way from here on. -/
theorem pureTo {a : α} {b : β} (hab : f b = a) (hR : ∀ s s', R s s' → R' s s') :
    Pairs R R' f (pure a) (pure b) := by
  intro s s' hs
  exact .inr ⟨b, s, s', by rw [hab, run_pure], run_pure b s', hR s s' hs⟩

theorem pure {a : α} {b : β} (hab : f b = a) : Pairs R R f (pure a) (pure b) :=
  pureTo hab fun _ _ hs => hs

theorem bind {k : α → Parser γ} {k' : β → Parser δ} (h : Pairs R R' f p q)
    (hk : ∀ b, Pairs R' R'' g (k (f b)) (k' b)) : Pairs R R'' g (p >>= k) (q >>= k') := by
  intro s s' hs
  rw [run_bind, run_bind]
  rcases h hs with ⟨hp, hq⟩ | ⟨b, r, r', hp, hq, hr⟩
  · rw [hp, hq]
    exact .inl ⟨rfl, rfl⟩
  · rw [hp, hq]
    exact hk b hr

theorem map {k : α → γ} {k' : β → δ} (h : Pairs R R' f p q) (hk : ∀ b, g (k' b) = k (f b)) :
    Pairs R R' g (k <$> p) (k' <$> q) :=
  h.bind fun b => .pure (hk b)

theorem orElse {p' : Parser α} {q' : Parser β} (h : Pairs R R' f p q) (h' : Pairs R R' f p' q') :
    Pairs R R' f (orElse p p') (orElse q q') := by
  intro s s' hs
  rw [run_orElse, run_orElse]
  rcases h hs with ⟨hp, hq⟩ | ⟨b, r, r', hp, hq, hr⟩
  · rw [hp, hq]
    exact h' hs
  · rw [hp, hq]
    exact .inr ⟨b, r, r', rfl, rfl, hr⟩

theorem firstOf : ∀ {ps : List (Parser α)} {qs : List (Parser β)},
    List.Forall₂ (Pairs R R' f) ps qs → Pairs R R' f (firstOf ps) (firstOf qs)
  | _, _, .nil => fun _ _ _ => .inl ⟨rfl, rfl⟩
  | _, _, .cons h .nil => h
  | _, _, .cons h (.cons h' hrest) => h.orElse (firstOf (.cons h' hrest))

theorem optional (h : Pairs R R f p q) :
    Pairs R R (Option.map f) (Parser.optional p) (Parser.optional q) := by
  intro s s' hs
  rcases h hs with ⟨hp, hq⟩ | ⟨b, r, r', hp, hq, hr⟩
  · exact .inr ⟨none, s, s', run_optional_none hp, run_optional_none hq, hs⟩
  · exact .inr ⟨some b, r, r', run_optional_some hp, run_optional_some hq, hr⟩

end Pairs

theorem exists_run_upTo {ε : Type} (p : Parser α) : ∀ (bound : List ε) (s : List Char),
    ∃ as r, (p.upTo bound).run s = some (as, r)
  | bound, s => by
    cases hs : p.run s with
    | none => exact ⟨[], s, by cases bound <;> simp [upTo, hs]⟩
    | some x =>
      cases bound with
      | nil => exact ⟨[x.1], x.2, by simp [upTo, hs]⟩
      | cons _ bound =>
        obtain ⟨as, r, hrest⟩ := exists_run_upTo p bound x.2
        exact ⟨x.1 :: as, r, by simp [upTo, hs, hrest]⟩

theorem Runs.pair {f : β → α} {p : Parser α} {q : Parser β} (hq : Strict q) (h : Pairs R R f p q)
    {s r : List Char} {as : List α} (hruns : Runs p s as r) : ∀ {s' : List Char}, R s s' →
    ∃ bs r', as = bs.map f ∧ Runs q s' bs r' ∧ R r r' := by
  induction hruns with
  | @done s hnone =>
    intro s' hs
    rcases h hs with ⟨-, hnone'⟩ | ⟨b, r, r', hsome, -⟩
    · exact ⟨[], s', rfl, .done hnone', hs⟩
    · rw [hnone] at hsome
      cases hsome
  | @step s t r a as hsome _ _ ih =>
    intro s' hs
    rcases h hs with ⟨hnone, -⟩ | ⟨b, u, u', hp, hstep, hu⟩
    · rw [hnone] at hsome
      cases hsome
    · rw [hp] at hsome
      cases hsome
      obtain ⟨bs, r', rfl, hrest, hr⟩ := ih hu
      exact ⟨b :: bs, r', rfl, .step hstep (hq hstep) hrest, hr⟩

/-- Each of the two repeats up to where its own text has no match left, so that the length of the
texts has no part in it. -/
theorem Pairs.many {f : β → α} {p : Parser α} {q : Parser β} (hp : Strict p) (hq : Strict q)
    (h : Pairs R R f p q) : Pairs R R (List.map f) (Parser.many p) (Parser.many q) := by
  intro s s' hs
  obtain ⟨as, r, hmany⟩ := exists_run_upTo p s s
  obtain ⟨bs, r', rfl, hruns, hr⟩ := (runs_of_many hp hmany).pair hq h hs
  exact .inr ⟨bs, r, r', hmany, hruns.run_many, hr⟩

/-! ## From tokens to scripts -/

/-- A word without a line end in it. -/
def WithinLine (w : List Char) : Prop := w.all (fun c => !isLineEnd c) = true

/-- The tokens of a script are read in the same way from texts that are related by `R`, up to `g` in
help texts, in strings and in what is left of the text. -/
structure SameTokens (R : List Char → List Char → Prop) (g : List Char → List Char) : Prop where
  here : Pairs R R g here here
  endOfInput : Pairs R R id endOfInput endOfInput
  gap : Pairs R R id gap gap
  lineEnd : Pairs R R id lineEnd lineEnd
  word : ∀ w, WithinLine w → Pairs R R id (word w) (word w)
  keyword : ∀ w, WithinLine w → Pairs R R id (silent (Token.keyword w)) (silent (Token.keyword w))
  sumOperator : Pairs R R id sumOperator sumOperator
  productOperator : Pairs R R id productOperator productOperator
  identifier : Pairs R R id identifier identifier
  number : Pairs R R id number number
  string : Pairs R R (Text.reword g) string string
  comment : Pairs R R id comment comment
  commandText : Pairs R R id commandText commandText
  helpBlock : Pairs R R (Text.reword g) (silent Token.helpBlock) (silent Token.helpBlock)

/-- Behind an opening bracket texts are related by `R'`, until the bracket is closed. -/
structure Opens (R R' : List Char → List Char → Prop) : Prop where
  word : ∀ c, WithinLine [c] → Pairs R R' id (word [c]) (word [c])
  close : ∀ s s', R' s s' → R s s'

/-- An operator and its operand. -/
def rewordOperation (g : List Char → List Char) (x : BinOp × Expr) : BinOp × Expr :=
  (x.1, x.2.reword g)

theorem reword_chain (g : List Char → List Char) (first : Expr) (rest : List (BinOp × Expr)) :
    (chain first rest).reword g = chain (first.reword g) (rest.map (rewordOperation g)) := by
  induction rest generalizing first with
  | nil => rfl
  | cons x rest ih => exact ih (.binary x.1 first x.2)

namespace SameTokens

variable {g : List Char → List Char} {inner inner' : Parser Expr} {expr expr' : Parser Expr}
  {body body' : Parser (List Placed)}
  (h : SameTokens R g) (h' : SameTokens R' g) (hopens : Opens R R')

section Expressions

include h in
theorem level {op : Parser BinOp} {symbol? : Char → Option BinOp} (hop : IsOperator op symbol?)
    (hpair : Pairs R R id op op) {operand operand' : Parser Expr} (hshrinks : Shrinks operand)
    (hshrinks' : Shrinks operand') (hoperand : Pairs R R (Expr.reword g) operand operand') :
    Pairs R R (Expr.reword g) (level op operand) (level op operand') := by
  have hoperation : Pairs R R (rewordOperation g) (operation op operand) (operation op operand') :=
    h.gap.bind fun _ => hpair.bind fun _ => h.gap.bind fun _ => hoperand.bind fun _ => .pure rfl
  have hmany := hoperation.many (operation_strict hop hshrinks) (operation_strict hop hshrinks')
  exact hoperand.bind fun first => h.gap.bind fun _ => hmany.bind fun rest =>
    .pure (reword_chain g first rest)

include h h' hopens

theorem primary (hinner : Pairs R' R' (Expr.reword g) inner inner') :
    Pairs R R (Expr.reword g) (primary inner) (primary inner') := by
  have hparenthesised : Pairs R R (Expr.reword g) (parenthesised inner) (parenthesised inner') :=
    (hopens.word '(' rfl).bind fun _ => h'.gap.bind fun _ => hinner.bind fun _ =>
      h'.gap.bind fun _ => (h'.word [')'] rfl).bind fun _ => .pureTo rfl hopens.close
  refine .firstOf (.cons ?_ (.cons ?_ (.cons ?_ (.cons hparenthesised .nil))))
  · exact h.number.map fun _ => rfl
  · exact h.string.map fun _ => rfl
  · exact h.identifier.map fun _ => rfl

theorem factor (hinner : Pairs R' R' (Expr.reword g) inner inner') :
    Pairs R R (Expr.reword g) (factor inner) (factor inner') := by
  have hminus := (h.word ['-'] rfl).named (c := .minus)
  refine hminus.optional.bind fun minus => h.gap.bind fun _ =>
    (h.primary h' hopens hinner).bind fun e => .pure ?_
  cases minus <;> rfl

theorem term (hinner : Pairs R' R' (Expr.reword g) inner inner') (hshrinks : Shrinks inner)
    (hshrinks' : Shrinks inner') : Pairs R R (Expr.reword g) (term inner) (term inner') :=
  h.level isOperator_product h.productOperator (factor_shrinks hshrinks) (factor_shrinks hshrinks')
    (h.factor h' hopens hinner)

theorem sum (hinner : Pairs R' R' (Expr.reword g) inner inner') (hshrinks : Shrinks inner)
    (hshrinks' : Shrinks inner') : Pairs R R (Expr.reword g) (sum inner) (sum inner') :=
  h.level isOperator_sum h.sumOperator (term_shrinks hshrinks) (term_shrinks hshrinks')
    (h.term h' hopens hinner hshrinks hshrinks')

end Expressions

section Phrases

include h

theorem declaration (opening closing : Char) (required : Bool) (hopening : WithinLine [opening])
    (hclosing : WithinLine [closing]) :
    Pairs R R (Phrase.reword g) (declaration opening closing required)
      (declaration opening closing required) :=
  (h.word _ hopening).bind fun _ => h.gap.bind fun _ => h.identifier.bind fun _ =>
    h.gap.bind fun _ => (h.word _ hclosing).bind fun _ => h.gap.bind fun _ =>
      h.string.optional.bind fun _ => .pure rfl

theorem placed {p p' : Parser Phrase} (hp : Pairs R R (Phrase.reword g) p p') :
    Pairs R R (rewordPlaced g) (placed p) (placed p') :=
  h.here.bind fun _ => hp.bind fun _ => .pure rfl

variable (hexpr : Pairs R R (Expr.reword g) expr expr')
  (hbody : Pairs R' R' (List.map (rewordPlaced g)) body body')
include h' hopens hexpr hbody

theorem item : Pairs R R (Phrase.reword g) (item expr body) (item expr' body') := by
  have hblankLineEnds : Pairs R R (List.map id) (many blankLineEnd) (many blankLineEnd) :=
    (h.gap.bind fun _ => h.lineEnd).many blankLineEnd_strict blankLineEnd_strict
  have hblock (name : String) (phrases : List Placed) :
      (Phrase.block name phrases).reword g = .block name (phrases.map (rewordPlaced g)) := by
    rw [Phrase.reword, rewordAll_eq_map]
  refine .firstOf (.cons ?_ (.cons ?_ (.cons ?_ (.cons ?_ (.cons ?_ (.cons ?_ (.cons ?_
    (.cons ?_ (.cons ?_ (.cons ?_ .nil))))))))))
  · exact h.helpBlock.map fun _ => rfl
  · exact (h.word ['$'] rfl).bind fun _ => h.commandText.map fun _ => rfl
  · exact (h.word ['>', '>', '>'] rfl).bind fun _ => h.commandText.map fun _ => rfl
  · exact h.declaration '<' '>' true rfl rfl
  · exact h.declaration '[' ']' false rfl rfl
  · exact (h.keyword ['e', 'x', 'i', 't'] rfl).bind fun _ => h.gap.bind fun _ =>
      hexpr.optional.map fun _ => rfl
  · exact (h.keyword ['y', 'i', 'e', 'l', 'd'] rfl).bind fun _ => .pure rfl
  · exact h.identifier.bind fun name => h.gap.bind fun _ => hblankLineEnds.bind fun _ =>
      h.gap.bind fun _ => (hopens.word '\x7b' rfl).bind fun _ => h'.gap.bind fun _ =>
        hbody.bind fun phrases => h'.gap.bind fun _ => (h'.word ['\x7d'] rfl).bind fun _ =>
          .pureTo (hblock name phrases) hopens.close
  · exact h.identifier.bind fun _ => h.gap.bind fun _ => (h.word [':'] rfl).bind fun _ =>
      h.commandText.map fun _ => rfl
  · exact h.identifier.bind fun _ => h.gap.bind fun _ => (h.word ['='] rfl).bind fun _ =>
      h.gap.bind fun _ => hexpr.map fun _ => rfl

theorem line : Pairs R R (List.map (rewordPlaced g)) (line expr body) (line expr' body') := by
  have hnote : Pairs R R (rewordPlaced g) (Parser.placed (Phrase.comment <$> Parser.comment))
      (Parser.placed (Phrase.comment <$> Parser.comment)) :=
    h.placed (h.comment.map fun _ => rfl)
  refine .orElse ?_ ?_
  · refine (h.placed (h.item h' hopens hexpr hbody)).bind fun phrase => h.gap.bind fun _ =>
      hnote.optional.bind fun note => .pure ?_
    cases note <;> rfl
  · exact hnote.bind fun _ => .pure rfl

/-- **One more brace.** Lines are read in the same way if expressions and the bodies behind a brace
are. -/
theorem lines (hshrinks : Shrinks expr) (hshrinks' : Shrinks expr') (hbodyShrinks : Shrinks body)
    (hbodyShrinks' : Shrinks body') :
    Pairs R R (List.map (rewordPlaced g)) (lines expr body) (lines expr' body') := by
  have hline := (h.line h' hopens hexpr hbody).optional
  have hnext : Pairs R R _ (nextLine expr body) (nextLine expr' body') :=
    h.gap.bind fun _ => h.lineEnd.bind fun _ => h.gap.bind fun _ => hline
  have hmany := hnext.many (nextLine_strict hshrinks hbodyShrinks)
    (nextLine_strict hshrinks' hbodyShrinks')
  have hflat (ls : List (Option (List Placed))) : (ls.flatMap (·.getD [])).map (rewordPlaced g) =
      (ls.map (Option.map (List.map (rewordPlaced g)))).flatMap (·.getD []) := by
    rw [List.map_flatMap, List.flatMap_map]
    congr 1
    funext l
    cases l <;> rfl
  exact .named <| h.gap.bind fun _ => hline.bind fun first => hmany.bind fun rest =>
    .pure (hflat (first :: rest))

end Phrases

include h in
theorem script {depth depth' : Nat} (hbody : Pairs R R (List.map (rewordPlaced g))
    (Parser.body depth) (Parser.body depth')) :
    Pairs R R (List.map (rewordPlaced g)) (script depth) (script depth') :=
  .named <| h.gap.bind fun _ => hbody.bind fun _ => h.gap.bind fun _ => h.endOfInput.bind fun _ =>
    .pure rfl

end SameTokens

/-! ## The bound on the depth -/

/-- The same text, shorter than the bound. -/
def Below (n : Nat) (s s' : List Char) : Prop := s = s' ∧ s.length < n

theorem Shrinks.below {p : Parser α} (hp : Shrinks p) (n : Nat) :
    Pairs (Below n) (Below n) id p p := by
  rintro s _ ⟨rfl, hlt⟩
  cases hs : p.run s with
  | none => exact .inl ⟨rfl, rfl⟩
  | some x => exact .inr ⟨x.1, x.2, x.2, rfl, rfl, rfl, Nat.lt_of_le_of_lt (hp hs).length_le hlt⟩

theorem comment_shrinks : Shrinks comment := by
  intro s x r h
  rcases note_cases s with hs | ⟨v, rfl⟩
  · rw [comment_eq_none hs] at h
    cases h
  · cases h
    exact (List.dropWhile_suffix _).trans (List.suffix_cons '#' v)

theorem endOfInput_shrinks : Shrinks endOfInput := by
  intro s x r h
  simp only [endOfInput, run_named, run_silent] at h
  split at h
  · cases h
    exact List.nil_suffix
  · cases h

theorem here_shrinks : Shrinks here := by
  intro s x r h
  cases h
  exact List.suffix_refl s

theorem helpToken_shrinks : Shrinks (silent Token.helpBlock) := by
  intro s text r h
  have hphrase : helpBlock.run s = some (.help text, r) := by
    simp only [helpBlock, run_named, run_map, h, Option.map_some]
  exact helpBlock_shrinks hphrase

theorem sameTokens_below (n : Nat) : SameTokens (Below n) id where
  here := here_shrinks.below n
  endOfInput := endOfInput_shrinks.below n
  gap := gap_shrinks.below n
  lineEnd := lineEnd_shrinks.below n
  word w _ := (word_shrinks w).below n
  keyword w _ := (keyword_shrinks w).below n
  sumOperator := isOperator_sum.shrinks.below n
  productOperator := isOperator_product.shrinks.below n
  identifier := identifier_shrinks.below n
  number := number_shrinks.below n
  string := (string_shrinks.below n).congr Text.reword_id.symm
  comment := comment_shrinks.below n
  commandText := commandText_shrinks.below n
  helpBlock := (helpToken_shrinks.below n).congr Text.reword_id.symm

theorem opens_below (n : Nat) : Opens (Below (n + 1)) (Below n) where
  word c _ := by
    rintro s _ ⟨rfl, hlt⟩
    cases hs : (Parser.word [c]).run s with
    | none => exact .inl ⟨rfl, rfl⟩
    | some x =>
      refine .inr ⟨x.1, x.2, x.2, rfl, rfl, rfl, ?_⟩
      rw [run_word_iff.1 hs, List.length_append, List.length_singleton] at hlt
      omega
  close := by
    rintro s _ ⟨rfl, hlt⟩
    exact ⟨rfl, Nat.lt_succ_of_lt hlt⟩

theorem expression_below : ∀ {n depth depth' : Nat}, n ≤ depth → n ≤ depth' →
    Pairs (Below n) (Below n) (Expr.reword id) (expression depth) (expression depth')
  | 0, _, _, _, _ => fun _ _ hs => absurd hs.2 (Nat.not_lt_zero _)
  | _ + 1, 0, _, h, _ => absurd h (Nat.not_succ_le_zero _)
  | _ + 1, _ + 1, 0, _, h => absurd h (Nat.not_succ_le_zero _)
  | n + 1, depth + 1, depth' + 1, h, h' =>
    (sameTokens_below (n + 1)).sum (sameTokens_below n) (opens_below n)
      (expression_below (Nat.le_of_succ_le_succ h) (Nat.le_of_succ_le_succ h'))
      (expression_shrinks depth) (expression_shrinks depth')

theorem body_below : ∀ {n depth depth' : Nat}, n ≤ depth → n ≤ depth' →
    Pairs (Below n) (Below n) (List.map (rewordPlaced id)) (Parser.body depth) (Parser.body depth')
  | 0, _, _, _, _ => fun _ _ hs => absurd hs.2 (Nat.not_lt_zero _)
  | _ + 1, 0, _, h, _ => absurd h (Nat.not_succ_le_zero _)
  | _ + 1, _ + 1, 0, _, h => absurd h (Nat.not_succ_le_zero _)
  | n + 1, depth + 1, depth' + 1, h, h' =>
    (sameTokens_below (n + 1)).lines (sameTokens_below n) (opens_below n) (expression_below h h')
      (body_below (Nat.le_of_succ_le_succ h) (Nat.le_of_succ_le_succ h'))
      (expression_shrinks _) (expression_shrinks _) (body_shrinks depth) (body_shrinks depth')

/-- **The depth is no limit** as soon as it is more than the length of the text. -/
theorem script_depth {s : List Char} {depth depth' : Nat} (h : s.length < depth)
    (h' : s.length < depth') : (script depth).run s = (script depth').run s := by
  have hid : List.map (rewordPlaced id) = id := by
    funext ps
    rw [← rewordAll_eq_map, rewordAll_id, id]
  have hpairs := ((sameTokens_below (s.length + 1)).script (body_below h h')).congr hid
  rcases hpairs ⟨rfl, Nat.lt_succ_self _⟩ with ⟨hp, hq⟩ | ⟨b, r, r', hp, hq, rfl, -⟩
  · rw [hp, hq]
  · rw [hp, hq, id]

end TaskRunner.Grammar.Parser
