import TaskRunner.Proofs.Phrases

/-!
# Reading on past the end of a text

A choice that fails at the end of a text may not fail once more text is there, so in general nothing
is known about how a longer text is read. It is known if the text goes on with a new line: what a
parser has taken off the front it takes off the longer text as well (`Carries`), provided that what
was left of the text is the end of the part that was read. What that means depends on the part: no
operator may follow an expression, only a comment or the end of the line may follow a phrase, and
only the end of the line may follow a line.

The longer text also has more room for brackets. With nothing to go on with, this says that the
bound on the depth makes no difference.
-/
namespace TaskRunner.Grammar

open Text (StopsAt)

/-- The text is empty or starts with a line feed. -/
def NewLine (t : List Char) : Prop := StopsAt (· != '\n') t

theorem newLine_nil : NewLine [] := Text.stopsAt_nil

theorem newLine_cons (s : List Char) : NewLine ('\n' :: s) := Text.stopsAt_cons.2 rfl

section

variable {t : List Char} (ht : NewLine t) {s r : List Char}
include ht

theorem NewLine.stopsAt {p : Char → Bool} (hp : p '\n' = false) : StopsAt p t := by
  intro c hc
  have hc' : c = '\n' := by simpa using ht c hc
  rw [hc']
  exact hp

theorem NewLine.dropGap (s : List Char) :
    (s ++ t).dropWhile isGap = s.dropWhile isGap ++ t :=
  Text.dropWhile_append_stop s (ht.stopsAt (by decide))

theorem NewLine.dropGap_cons {c : Char} (h : s.dropWhile isGap = c :: r) :
    (s ++ t).dropWhile isGap = c :: (r ++ t) := by
  rw [ht.dropGap, h, List.cons_append]

/-! ## Tokens -/

namespace Token

theorem name_extend {name : String} (h : Token.name s = some (name, r)) :
    Token.name (s ++ t) = some (name, r ++ t) := by
  obtain ⟨hname, rfl, hr⟩ := name_eq_some_iff.1 h
  rw [List.append_assoc]
  exact name_append hname (hr.append (ht.stopsAt (by decide)))

theorem keyword_extend {w : List Char} (h : keyword w s = some ((), r)) :
    keyword w (s ++ t) = some ((), r ++ t) := by
  obtain ⟨rfl, hr⟩ := keyword_eq_some_iff.1 h
  rw [List.append_assoc]
  exact keyword_append (hr.append (ht.stopsAt (by decide)))

theorem number_extend {x : Number} (h : number s = some (x, r)) :
    number (s ++ t) = some (x, r ++ t) := by
  rcases number_forms h with ⟨d, rfl, hne, hd, hr, rfl⟩ | ⟨d, f, rfl, hd, hf, hne, hr, rfl⟩
  · rw [List.append_assoc]
    exact number_whole hd hne (hr.append (ht.stopsAt (by decide)))
  · have hread := number_point hd hf hne (hr.append (ht.stopsAt (by decide)))
    simpa using hread

omit ht in
theorem string_extend {x : String} (h : Token.string s = some (x, r)) :
    Token.string (s ++ t) = some (x, r ++ t) := by
  rw [string_eq_some_iff.1 h]
  exact string_eq_some_iff.2 (by simp)

theorem helpText_extend {text : List Char} (h : helpText s = (text, '@' :: '@' :: '@' :: r)) :
    helpText (s ++ t) = (text, '@' :: '@' :: '@' :: (r ++ t)) := by
  fun_induction helpText s generalizing text with
  | case1 => cases h
  | case2 s =>
    cases h
    simp [helpText]
  | case3 c s hnot u v hs ih =>
    obtain ⟨rfl, rfl⟩ := Prod.mk.inj h
    rw [List.cons_append, helpText, ih hs]
    rintro w rfl hw
    -- the text goes on with no `@`, so all three would have to be in front of its end
    have hat : StopsAt (· == '@') t := ht.stopsAt (by decide)
    rcases s with _ | ⟨d, _ | ⟨e, s⟩⟩
    · have hw' : t = '@' :: '@' :: w := hw
      simp [hw'] at hat
    · have hw' : t = '@' :: w := (List.cons.inj hw).2
      simp [hw'] at hat
    · obtain ⟨rfl, rfl, -⟩ : d = '@' ∧ e = '@' ∧ _ := by simpa using hw
      exact hnot s rfl rfl

omit ht in
/-- A carriage return at the very end may become a part of a longer line end. -/
theorem lineEnd_extend (h : lineEnd s = some ((), r)) (hend : s = ['\r'] → t = []) :
    lineEnd (s ++ t) = some ((), r ++ t) := by
  rw [lineEnd_eq_some_iff]
  rcases lineEnd_eq_some_iff.1 h with rfl | rfl | ⟨rfl, hr⟩
  · exact .inl rfl
  · exact .inr (.inl rfl)
  · refine .inr (.inr ⟨rfl, ?_⟩)
    cases r with
    | nil =>
      rw [hend rfl]
      exact Text.stopsAt_nil
    | cons c r => exact hr

theorem helpBlock_extend {text : String} (h : helpBlock s = some (text, r)) :
    helpBlock (s ++ t) = some (text, r ++ t) := by
  obtain ⟨v, u, w, rfl, hu, hw, htext⟩ := helpBlock_eq_some_iff.1 h
  have hend : v.dropWhile isGap = ['\r'] → t = [] := by
    intro hv
    rw [hv] at hu
    cases hu
    cases hw
  have hline := lineEnd_extend hu hend
  rw [← ht.dropGap] at hline
  exact helpBlock_eq_some_iff.2 ⟨v ++ t, u ++ t, w, rfl, hline, helpText_extend ht hw, htext⟩

theorem restOfLine_extend (s : List Char) :
    restOfLine (s ++ t) = ((restOfLine s).1, (restOfLine s).2 ++ t) := by
  have hstop : StopsAt (fun c => !isLineEnd c) t := ht.stopsAt (by decide)
  rw [restOfLine, restOfLine, Text.takeWhile_append_stop s hstop,
    Text.dropWhile_append_stop s hstop]

end Token

end

namespace Parser

variable {α : Type}

/-- What `p` takes off a text, `p'` takes off the text with `t` behind it, if what is left of the
text is an end in the sense of `ok`. The results differ by `f`. -/
def Carries (t : List Char) (ok : List Char → Prop) (f : α → α) (p p' : Parser α) : Prop :=
  ∀ ⦃s : List Char⦄ ⦃a : α⦄ ⦃r : List Char⦄,
    p.run s = some (a, r) → ok r → p'.run (s ++ t) = some (f a, r ++ t)

theorem Carries.mono {t : List Char} {ok ok' : List Char → Prop} {f : α → α} {p p' : Parser α}
    (h : Carries t ok f p p') (hok : ∀ r, ok' r → ok r) : Carries t ok' f p p' :=
  fun _ _ r hr hr' => h hr (hok r hr')

/-! ## Repetition -/

/-- Where a match may start, the match before it may end; and so it may where the last one ends. -/
theorem Runs.ok_start {p : Parser α} {ok : List Char → Prop}
    (hnext : ∀ s a r, p.run s = some (a, r) → ok s) {s r : List Char} {as : List α}
    (h : Runs p s as r) (hr : ok r) : ok s := by
  cases h with
  | done _ => exact hr
  | step hstep _ _ => exact hnext _ _ _ hstep

theorem Runs.carry {t : List Char} (ht : NewLine t) {p p' : Parser α} {ok : List Char → Prop}
    {f : α → α} (hstep : Carries t ok f p p') (hnext : ∀ s a r, p.run s = some (a, r) → ok s)
    {s r : List Char} {as : List α} (h : Runs p s as r) (hr : ok r)
    (hstop : p'.run (r ++ t) = none) : Runs p' (s ++ t) (as.map f) (r ++ t) := by
  induction h with
  | done _ => exact .done hstop
  | @step s u r a as hs hlt hrest ih =>
    refine .step (hstep hs (hrest.ok_start hnext hr)) ?_ (ih hr hstop)
    rw [ht.dropGap, List.length_append, List.length_append]
    omega

/-! ## Expressions -/

/-- Behind blanks there is no operator of the kind. -/
def NoOperator (symbol? : Char → Option BinOp) (r : List Char) : Prop :=
  StopsAt (fun c => (symbol? c).isSome) (r.dropWhile isGap)

theorem dropGap_dropGap (r : List Char) : (r.dropWhile isGap).dropWhile isGap = r.dropWhile isGap :=
  Text.dropWhile_of_stopsAt (Text.stopsAt_dropWhile isGap r)

theorem noOperator_dropGap {symbol? : Char → Option BinOp} {r : List Char} :
    NoOperator symbol? (r.dropWhile isGap) ↔ NoOperator symbol? r := by
  rw [NoOperator, NoOperator, dropGap_dropGap]

/-- What follows an expression cannot be a part of it. -/
def ExprEnd (r : List Char) : Prop := NoOperator productSymbol? r ∧ NoOperator sumSymbol? r

/-- Behind blanks there is the character. -/
def Before (c : Char) (r : List Char) : Prop := ∃ w, r.dropWhile isGap = c :: w

theorem Before.noOperator {c : Char} {r : List Char} (h : Before c r)
    {symbol? : Char → Option BinOp} (hc : symbol? c = none) : NoOperator symbol? r := by
  obtain ⟨w, hw⟩ := h
  rw [NoOperator, hw, Text.stopsAt_cons, hc]
  rfl

section

variable {t : List Char} (ht : NewLine t) {inner inner' : Parser Expr}
include ht

theorem primary_carries (h : Carries t (Before ')') id inner inner') :
    Carries t (fun _ => True) id (primary inner) (primary inner') := by
  intro s e r hs _
  rw [run_primary_iff] at hs ⊢
  rcases hs with ⟨x, rfl, hx⟩ | ⟨x, rfl, hx⟩ | ⟨x, rfl, hx⟩ | hs
  · exact .inl ⟨x, rfl, Token.number_extend ht hx⟩
  · exact .inr (.inl ⟨x, rfl, Token.string_extend hx⟩)
  · exact .inr (.inr (.inl ⟨x, rfl, Token.name_extend ht hx⟩))
  · obtain ⟨w, u, rfl, hu, hr⟩ := run_parenthesised_iff.1 hs
    refine .inr (.inr (.inr (run_parenthesised_iff.2
      ⟨w ++ t, u ++ t, rfl, ?_, ht.dropGap_cons hr⟩)))
    rw [ht.dropGap]
    exact h hu ⟨r, hr⟩

theorem factor_carries (h : Carries t (Before ')') id inner inner') :
    Carries t (fun _ => True) id (factor inner) (factor inner') := by
  have hprimary := primary_carries ht h
  intro s e r hs _
  cases s with
  | nil =>
    rw [run_factor_plain inner Text.stopsAt_nil] at hs
    cases hs
  | cons c w =>
    by_cases hc : c = '-'
    · subst hc
      rw [run_factor_minus] at hs
      obtain ⟨x, hx, he⟩ := Option.map_eq_some_iff.1 hs
      cases he
      rw [List.cons_append, run_factor_minus, ht.dropGap, hprimary hx trivial]
      rfl
    · have hminus : StopsAt (· == '-') (c :: w) := by simpa using hc
      rw [run_factor_plain inner hminus] at hs
      have hminus' : StopsAt (· == '-') (c :: w ++ t) := by simpa using hc
      rw [run_factor_plain inner' hminus', ht.dropGap]
      exact hprimary hs trivial

/-- One level of an expression. An operand may end before an operator of the level, and before the
end of the level. -/
theorem level_carries {op : Parser BinOp} {symbol? : Char → Option BinOp}
    (hop : IsOperator op symbol?) (hline : symbol? '\n' = none) {operand operand' : Parser Expr}
    (hshrinks : Shrinks operand) (hshrinks' : Shrinks operand') {ok done : List Char → Prop}
    (hgap : ∀ r, ok (r.dropWhile isGap) → ok r)
    (hnext : ∀ c r, symbol? c ≠ none → Before c r → ok r)
    (hdone : ∀ r, done r → NoOperator symbol? r ∧ ok r) (h : Carries t ok id operand operand') :
    Carries t done id (level op operand) (level op operand') := by
  have hoperation : Carries t ok id (operation op operand) (operation op operand') := by
    intro s x r hs hr
    obtain ⟨u, ho, he⟩ := run_operation_iff.1 hs
    obtain ⟨c, hc, hsymbol⟩ := hop.eq_cons ho
    refine run_operation_iff.2 ⟨u ++ t, ?_, ?_⟩
    · rw [ht.dropGap, hc, List.cons_append, hop.cons, hsymbol]
      rfl
    · rw [ht.dropGap]
      exact h he hr
  have hstart : ∀ s x r, (operation op operand).run s = some (x, r) → ok s := by
    intro s x r hs
    obtain ⟨u, ho, -⟩ := run_operation_iff.1 hs
    obtain ⟨c, hc, hsymbol⟩ := hop.eq_cons ho
    exact hnext c s (by simp [hsymbol]) ⟨u, hc⟩
  intro s e r hs hr
  obtain ⟨first, u, rest, hfirst, hrest, rfl⟩ := (run_level_iff hop hshrinks).1 hs
  obtain ⟨hno, hokr⟩ := hdone r hr
  have hstop : (operation op operand').run (r ++ t) = none := by
    have hnone : op.run ((r ++ t).dropWhile isGap) = none := by
      rw [ht.dropGap]
      have hstops := hno.append (ht.stopsAt (p := fun c => (symbol? c).isSome) (by simp [hline]))
      cases hv : r.dropWhile isGap ++ t with
      | nil => exact hop.nil
      | cons c v =>
        rw [hv, Text.stopsAt_cons, Option.isSome_eq_false_iff, Option.isNone_iff_eq_none] at hstops
        rw [hop.cons, hstops]
        rfl
    simp only [operation, run_bind, run_gap, Option.bind_some, hnone, Option.bind_none]
  have hcarried := hrest.carry ht hoperation hstart hokr hstop
  rw [List.map_id] at hcarried
  refine (run_level_iff hop hshrinks').2 ⟨first, u ++ t, rest, ?_, ?_, rfl⟩
  · exact h hfirst (hgap u (hrest.ok_start hstart hokr))
  · rw [ht.dropGap]
    exact hcarried

theorem term_carries (hshrinks : Shrinks inner) (hshrinks' : Shrinks inner')
    (h : Carries t (Before ')') id inner inner') :
    Carries t (NoOperator productSymbol?) id (term inner) (term inner') :=
  level_carries ht isOperator_product rfl (factor_shrinks hshrinks) (factor_shrinks hshrinks')
    (fun _ _ => trivial) (fun _ _ _ _ => trivial) (fun _ hr => ⟨hr, trivial⟩) (factor_carries ht h)

omit ht in
theorem productSymbol?_of_sumSymbol? {c : Char} (h : sumSymbol? c ≠ none) :
    productSymbol? c = none := by
  unfold sumSymbol? at h
  split at h
  · rename_i hc
    rw [hc]
    rfl
  · split at h
    · rename_i hc
      rw [hc]
      rfl
    · exact absurd rfl h

/-- **An expression ends where it ended**, if no operator follows it there. -/
theorem expression_carries : ∀ {depth depth' : Nat}, depth ≤ depth' →
    Carries t ExprEnd id (expression depth) (expression depth')
  | 0, _, _ => fun s e r hs => by cases hs
  | depth + 1, 0, hle => absurd hle (by omega)
  | depth + 1, depth' + 1, hle => by
    have hinner : Carries t (Before ')') id (nested depth) (nested depth') :=
      (expression_carries (Nat.le_of_succ_le_succ hle)).mono fun r hr =>
        ⟨hr.noOperator rfl, hr.noOperator rfl⟩
    have hshrinks := expression_shrinks depth
    have hshrinks' := expression_shrinks depth'
    exact level_carries ht isOperator_sum rfl (term_shrinks hshrinks) (term_shrinks hshrinks')
      (fun r => noOperator_dropGap.1)
      (fun c r hc hr => hr.noOperator (productSymbol?_of_sumSymbol? hc))
      (fun r hr => ⟨hr.2, hr.1⟩) (term_carries ht hshrinks hshrinks' hinner)

end

end Parser

/-! ## Phrases -/

mutual

/-- The phrase in a script that goes on with `t`: the places of the phrases inside it do, too. -/
def Phrase.extend (t : List Char) : Phrase → Phrase
  | .block name body => .block name (extendAll t body)
  | .comment text => .comment text
  | .help text => .help text
  | .assign name value => .assign name value
  | .oneLine name command => .oneLine name command
  | .command text => .command text
  | .python text => .python text
  | .arg a => .arg a
  | .exit code => .exit code
  | .yield => .yield

/-- Phrases and their places in a script that goes on with `t`. -/
def extendAll (t : List Char) : List Placed → List Placed
  | [] => []
  | (s, phrase) :: rest => (s ++ t, phrase.extend t) :: extendAll t rest

end

theorem extendAll_append (t : List Char) (ps qs : List Placed) :
    extendAll t (ps ++ qs) = extendAll t ps ++ extendAll t qs := by
  induction ps with
  | nil => simp [extendAll]
  | cons p ps ih => simp [extendAll, ih]

theorem extendAll_flatMap (t : List Char) (ls : List (Option (List Placed))) :
    extendAll t (ls.flatMap (·.getD [])) =
      (ls.map (Option.map (extendAll t))).flatMap (·.getD []) := by
  induction ls with
  | nil => simp [extendAll]
  | cons l ls ih =>
    rw [List.flatMap_cons, extendAll_append, ih, List.map_cons, List.flatMap_cons]
    cases l <;> simp [extendAll]

namespace Parser

/-- Behind blanks there is nothing, or one of these characters. -/
def EndsIn (cs : List Char) (r : List Char) : Prop :=
  StopsAt (fun c => !cs.contains c) (r.dropWhile isGap)

/-- What may follow a line. -/
def lineStops : List Char := ['\n', '\r', '\x7d']

/-- What may follow a phrase. -/
def phraseStops : List Char := '#' :: lineStops

theorem EndsIn.stopsAt {cs r : List Char} (h : EndsIn cs r) {p : Char → Bool}
    (hp : cs.all (fun c => !p c) = true) : StopsAt p (r.dropWhile isGap) := by
  intro c hc
  have hmem : c ∈ cs := by simpa using h c hc
  simpa using List.all_eq_true.1 hp c hmem

theorem EndsIn.mono {cs ds r : List Char} (h : EndsIn cs r)
    (hsub : cs.all (fun c => ds.contains c) = true) : EndsIn ds r :=
  h.stopsAt (by simpa using hsub)

theorem EndsIn.dropGap_iff {cs r : List Char} : EndsIn cs (r.dropWhile isGap) ↔ EndsIn cs r := by
  rw [EndsIn, EndsIn, dropGap_dropGap]

theorem Before.endsIn {c : Char} {r cs : List Char} (h : Before c r)
    (hc : cs.contains c = true) : EndsIn cs r := by
  obtain ⟨w, hw⟩ := h
  rw [EndsIn, hw, Text.stopsAt_cons, hc]
  rfl

theorem EndsIn.exprEnd {r : List Char} (h : EndsIn phraseStops r) : ExprEnd r :=
  ⟨h.stopsAt (by decide), h.stopsAt (by decide)⟩

section

variable {t : List Char} (ht : NewLine t) {expr expr' : Parser Expr}
  {body body' : Parser (List Placed)} {s r : List Char}
  (hexpr : Carries t ExprEnd id expr expr')
  (hnone : ∀ s, StopsAt isFactorStart s → expr'.run s = none)
  (hbody : Carries t (Before '\x7d') (extendAll t) body body')
include ht

theorem commandText_extend {text : String} (h : commandText.run s = some (text, r)) :
    commandText.run (s ++ t) = some (text, r ++ t) := by
  have hrun (v : List Char) : commandText.run v =
      some (String.ofList (Text.trim (Token.restOfLine (v.dropWhile isGap)).1),
        (Token.restOfLine (v.dropWhile isGap)).2) := rfl
  rw [hrun] at h ⊢
  cases h
  rw [ht.dropGap, Token.restOfLine_extend ht]

omit ht in
/-- A part that was missing is still missing. -/
theorem optional_extend {α : Type} {f : α → α} {p q : Parser α} {o : Option α}
    (h : (Parser.optional p).run s = some (o, r))
    (hsome : ∀ a, p.run s = some (a, r) → q.run (s ++ t) = some (f a, r ++ t))
    (hnone : r = s → q.run (s ++ t) = none) :
    (Parser.optional q).run (s ++ t) = some (o.map f, r ++ t) := by
  rcases run_optional_iff.1 h with ⟨a, ha, rfl⟩ | ⟨-, rfl, rfl⟩
  · exact run_optional_some (hsome a ha)
  · exact run_optional_none (hnone rfl)

theorem Declares.extend {closing : Char} {name : String} {help : Option String}
    (h : Declares closing s name help r) (hr : EndsIn phraseStops r) :
    Declares closing (s ++ t) name help (r ++ t) := by
  obtain ⟨u, v, hu, hv, hhelp⟩ := h
  refine ⟨u ++ t, v ++ t, ?_, ht.dropGap_cons hv, ?_⟩
  · rw [ht.dropGap]
    exact Token.name_extend ht hu
  · rw [ht.dropGap]
    have hread := optional_extend (t := t) (f := id) (q := string) hhelp
      (fun x hx => Token.string_extend hx) (fun he => ?_)
    · simpa using hread
    · rw [he, EndsIn.dropGap_iff] at hr
      exact Token.string_eq_none
        ((hr.stopsAt (p := (· == '"')) (by decide)).append (ht.stopsAt (by decide)))

theorem blankLineEnds_carry {ends : List Unit} {c : Char} (h : Runs blankLineEnd s ends r)
    (hr : Before c r) (hc : isLineEnd c = false) :
    Runs blankLineEnd (s ++ t) ends (r ++ t) := by
  have hstep : Carries t (· ≠ []) id blankLineEnd blankLineEnd := by
    intro v x u hv hu
    rw [run_blankLineEnd_iff] at hv ⊢
    rw [ht.dropGap]
    refine Token.lineEnd_extend hv fun he => ?_
    rw [he] at hv
    cases hv
    exact absurd rfl hu
  have hnext : ∀ v x u, blankLineEnd.run v = some (x, u) → v ≠ [] := by
    rintro v x u hv rfl
    cases hv
  obtain ⟨w, hw⟩ := hr
  have hne : r ≠ [] := by
    rintro rfl
    cases hw
  have hstop : blankLineEnd.run (r ++ t) = none := by
    cases hv : blankLineEnd.run (r ++ t) with
    | none => rfl
    | some x =>
      obtain ⟨d, v, hd, he, -⟩ := Token.lineEnd_shrinks (run_blankLineEnd_iff.1 hv)
      rw [ht.dropGap, hw] at he
      cases he
      rw [hc] at hd
      cases hd
  have hcarried := h.carry ht hstep hnext hne hstop
  rwa [List.map_id] at hcarried

include hexpr hnone hbody

/-- **A phrase ends where it ended**, if a comment or the end of the line follows it. -/
theorem Takes.extend {phrase : Phrase} (h : Takes expr body s phrase r)
    (hr : EndsIn phraseStops r) : Takes expr' body' (s ++ t) (phrase.extend t) (r ++ t) := by
  cases h with
  | help h => exact .help (Token.helpBlock_extend ht h)
  | command h => exact .command (commandText_extend ht h)
  | python h => exact .python (commandText_extend ht h)
  | required h => exact .required (h.extend ht hr)
  | optional h => exact .optional (h.extend ht hr)
  | @exit _ u _ code hu hcode =>
    refine .exit (Token.keyword_extend ht hu) ?_
    rw [ht.dropGap]
    have hread := optional_extend (t := t) (f := id) (q := expr') hcode
      (fun x hx => hexpr hx hr.exprEnd) (fun he => ?_)
    · simpa using hread
    · rw [he, EndsIn.dropGap_iff] at hr
      exact hnone _ ((hr.stopsAt (by decide)).append (ht.stopsAt (by decide)))
  | yield h => exact .yield (Token.keyword_extend ht h)
  | @block _ u v w x _ name ends phrases hown hu hends hbrace hrun hclose =>
    have hends' : Runs blankLineEnd ((u ++ t).dropWhile isGap) ends (v ++ t) := by
      rw [ht.dropGap]
      exact blankLineEnds_carry ht hends ⟨w, hbrace⟩ (by decide)
    have hrun' : body'.run ((w ++ t).dropWhile isGap) = some (extendAll t phrases, x ++ t) := by
      rw [ht.dropGap]
      exact hbody hrun ⟨r, hclose⟩
    exact .block hown (Token.name_extend ht hu) hends' (ht.dropGap_cons hbrace) hrun'
      (ht.dropGap_cons hclose)
  | oneLine hown hu hv htext =>
    exact .oneLine hown (Token.name_extend ht hu) (ht.dropGap_cons hv) (commandText_extend ht htext)
  | @assign _ u v _ name value hown hu hv hvalue =>
    have hvalue' : expr'.run ((v ++ t).dropWhile isGap) = some (value, r ++ t) := by
      rw [ht.dropGap]
      exact hexpr hvalue hr.exprEnd
    exact .assign hown (Token.name_extend ht hu) (ht.dropGap_cons hv) hvalue'

/-! ## Lines -/

theorem TakesLine.extend {phrases : List Placed} (h : TakesLine expr body s phrases r)
    (hr : EndsIn lineStops r) :
    TakesLine expr' body' (s ++ t) (extendAll t phrases) (r ++ t) := by
  cases h with
  | @bare _ u phrase hp hnote =>
    rw [EndsIn.dropGap_iff] at hr
    have hp' := hp.extend ht hexpr hnone hbody (hr.mono (by decide))
    have hnote' : StopsAt (· == '#') ((u ++ t).dropWhile isGap) := by
      rw [ht.dropGap]
      exact hnote.append (ht.stopsAt (by decide))
    have hline := TakesLine.bare hp' hnote'
    rw [ht.dropGap] at hline
    simpa [extendAll] using hline
  | @noted _ u v phrase hp hv =>
    have hp' := hp.extend ht hexpr hnone hbody (Before.endsIn ⟨v, hv⟩ (by decide))
    have hline := TakesLine.noted hp' (ht.dropGap_cons hv)
    rw [ht.dropGap, Token.restOfLine_extend ht] at hline
    simpa [extendAll, Phrase.extend] using hline
  | @comment v =>
    have hline : TakesLine expr' body' ('#' :: (v ++ t)) _ _ := .comment
    rw [Token.restOfLine_extend ht] at hline
    simpa [extendAll, Phrase.extend] using hline

/-- A line, or the lack of one where the blanks of an empty line are already skipped. -/
theorem optional_line_extend {o : Option (List Placed)} (hs : StopsAt isGap s)
    (h : (Parser.optional (line expr body)).run s = some (o, r)) (hr : EndsIn lineStops r) :
    (Parser.optional (line expr' body')).run (s ++ t) = some (o.map (extendAll t), r ++ t) := by
  refine optional_extend h (fun phrases hphrases => ?_) fun he => ?_
  · exact run_line_iff.2 ((run_line_iff.1 hphrases).extend ht hexpr hnone hbody hr)
  · rw [he] at hr
    have hstop {p : Char → Bool} (hp : lineStops.all (fun c => !p c) = true)
        (hline : p '\n' = false) : StopsAt p (s ++ t) := by
      have hstops := hr.stopsAt hp
      rw [Text.dropWhile_of_stopsAt hs] at hstops
      exact hstops.append (ht.stopsAt hline)
    exact line_eq_none (hstop (by decide) (by decide)) (hstop (by decide) (by decide))

theorem nextLine_extend {o : Option (List Placed)} (h : (nextLine expr body).run s = some (o, r))
    (hend : s.dropWhile isGap = ['\r'] → t = []) (hr : EndsIn lineStops r) :
    (nextLine expr' body').run (s ++ t) = some (o.map (extendAll t), r ++ t) := by
  obtain ⟨u, hu, ho⟩ := run_nextLine_iff.1 h
  refine run_nextLine_iff.2 ⟨u ++ t, ?_, ?_⟩
  · rw [ht.dropGap]
    exact Token.lineEnd_extend hu hend
  · rw [ht.dropGap]
    exact optional_line_extend ht hexpr hnone hbody (Text.stopsAt_dropWhile isGap u) ho hr

omit ht hexpr hnone hbody in
/-- A line end of one carriage return at the end of a text has nothing behind it. -/
theorem nextLine_return {o : Option (List Placed)} (h : (nextLine expr body).run s = some (o, r))
    (hs : s.dropWhile isGap = ['\r']) : o = none ∧ r = [] := by
  obtain ⟨u, hu, ho⟩ := run_nextLine_iff.1 h
  rw [hs] at hu
  cases hu
  rw [List.dropWhile_nil, run_optional_none (line_eq_none Text.stopsAt_nil Text.stopsAt_nil)] at ho
  cases ho
  exact ⟨rfl, rfl⟩

omit ht hexpr hnone hbody in
theorem nextLine_start {o : Option (List Placed)} (h : (nextLine expr body).run s = some (o, r)) :
    EndsIn lineStops s ∧ s ≠ [] := by
  obtain ⟨u, hu, -⟩ := run_nextLine_iff.1 h
  obtain ⟨c, w, hc, hs, -⟩ := Token.lineEnd_shrinks hu
  constructor
  · refine Before.endsIn ⟨w, hs⟩ ?_
    simp only [isLineEnd, Bool.or_eq_true, beq_iff_eq] at hc
    rcases hc with rfl | rfl <;> rfl
  · rintro rfl
    cases hs

omit ht hexpr hnone hbody in
/-- Lines may follow each other. -/
theorem Runs.endsIn_start {rest : List (Option (List Placed))}
    (h : Runs (nextLine expr body) s rest r) (hr : EndsIn lineStops r) : EndsIn lineStops s :=
  h.ok_start (fun _ _ _ hv => (nextLine_start hv).1) hr

omit hexpr hnone hbody in
/-- No line follows where no line end is. -/
theorem nextLine_eq_none (hr : StopsAt isLineEnd (r.dropWhile isGap))
    (hend : r.dropWhile isGap = [] → t = []) : (nextLine expr' body').run (r ++ t) = none := by
  cases hv : (nextLine expr' body').run (r ++ t) with
  | none => rfl
  | some x =>
    obtain ⟨u, hu, -⟩ := run_nextLine_iff.1 hv
    obtain ⟨c, w, hc, hs, -⟩ := Token.lineEnd_shrinks hu
    rw [ht.dropGap] at hs
    cases hrest : r.dropWhile isGap with
    | nil =>
      rw [hrest, hend hrest] at hs
      cases hs
    | cons d v =>
      rw [hrest] at hs hr
      cases hs
      rw [Text.stopsAt_cons.1 hr] at hc
      cases hc

/-- The lines behind the first one, up to something that is no line end. -/
theorem nextLines_extend {rest : List (Option (List Placed))}
    (h : Runs (nextLine expr body) s rest r) (hr : EndsIn lineStops r)
    (hstop : StopsAt isLineEnd (r.dropWhile isGap)) (hend : r.dropWhile isGap = [] → t = []) :
    Runs (nextLine expr' body') (s ++ t) (rest.map (Option.map (extendAll t))) (r ++ t) := by
  have hstep : Carries t (fun u => EndsIn lineStops u ∧ (u = [] → t = []))
      (Option.map (extendAll t)) (nextLine expr body) (nextLine expr' body') := by
    intro v o u hv hu
    exact nextLine_extend ht hexpr hnone hbody hv (fun hv' => hu.2 (nextLine_return hv hv').2) hu.1
  refine h.carry ht hstep (fun v o u hv => ?_) ⟨hr, ?_⟩ (nextLine_eq_none ht hstop hend)
  · have hstart := nextLine_start hv
    exact ⟨hstart.1, fun he => absurd he hstart.2⟩
  · rintro rfl
    exact hend rfl

theorem lines_extend (hshrinks : Shrinks expr) (hshrinks' : Shrinks expr')
    (hbodyShrinks : Shrinks body) (hbodyShrinks' : Shrinks body') :
    Carries t (Before '\x7d') (extendAll t) (lines expr body) (lines expr' body') := by
  intro s phrases r h hr
  obtain ⟨first, u, rest, hfirst, hrest, rfl⟩ := (run_lines_iff hshrinks hbodyShrinks).1 h
  have hends : EndsIn lineStops r := hr.endsIn (by decide)
  have hclose : StopsAt isLineEnd (r.dropWhile isGap) ∧ r.dropWhile isGap ≠ [] := by
    obtain ⟨w, hw⟩ := hr
    rw [hw]
    exact ⟨Text.stopsAt_cons.2 (by decide), by simp⟩
  refine (run_lines_iff hshrinks' hbodyShrinks').2
    ⟨first.map (extendAll t), u ++ t, rest.map (Option.map (extendAll t)), ?_, ?_, ?_⟩
  · rw [ht.dropGap]
    exact optional_line_extend ht hexpr hnone hbody (Text.stopsAt_dropWhile isGap s) hfirst
      (hrest.endsIn_start hends)
  · exact nextLines_extend ht hexpr hnone hbody hrest hends hclose.1 fun he => absurd he hclose.2
  · rw [← List.map_cons, ← extendAll_flatMap]

omit hexpr hnone hbody

/-- **A body ends where it ended**, before its closing brace. -/
theorem body_carries : ∀ {depth depth' : Nat}, depth ≤ depth' →
    Carries t (Before '\x7d') (extendAll t) (Parser.body depth) (Parser.body depth')
  | 0, _, _ => fun s e r hs => by cases hs
  | depth + 1, 0, hle => absurd hle (by omega)
  | depth + 1, depth' + 1, hle =>
    lines_extend ht (expression_carries ht hle) (fun _ hs => expression_eq_none hs (depth' + 1))
      (body_carries (Nat.le_of_succ_le_succ hle)) (expression_shrinks _) (expression_shrinks _)
      (body_shrinks depth) (body_shrinks depth')

end

end Parser

end TaskRunner.Grammar
