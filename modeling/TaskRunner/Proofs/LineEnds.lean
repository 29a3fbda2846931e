import TaskRunner.Proofs.Placement
import TaskRunner.Proofs.SideBySide

/-!
# Line ends

A line may end in a line feed or in a carriage return and a line feed. A script that is written in
the first way and one that is written in the second are read side by side: the tokens are the same,
except that help texts and strings, which may run over several lines, keep the carriage returns
(`sameTokens_mirrors`). So the one is a script just if the other is, and the two scripts are equal,
with their line numbers, once the carriage returns are taken out of those texts
(`Script.parse_crlf`).
-/
namespace TaskRunner

open Grammar Grammar.Parser

namespace Text

/-- Each line feed becomes a carriage return and a line feed. -/
def crlf (s : List Char) : List Char := s.flatMap fun c => if c = '\n' then ['\r', '\n'] else [c]

def dropReturns (s : List Char) : List Char := s.filter (· != '\r')

theorem dropReturns_cons {c : Char} {s : List Char} (h : c ≠ '\r') :
    dropReturns (c :: s) = c :: dropReturns s := by
  simp [dropReturns, h]

variable {p : Char → Bool} {c : Char} {s t w : List Char}

@[simp] theorem crlf_nil : crlf [] = [] := rfl

@[simp] theorem crlf_lineFeed : crlf ('\n' :: s) = '\r' :: '\n' :: crlf s := rfl

theorem crlf_cons (h : c ≠ '\n') : crlf (c :: s) = c :: crlf s := by simp [crlf, h]

theorem ne_of_withinLine (h : WithinLine (c :: w)) : c ≠ '\n' ∧ c ≠ '\r' ∧ WithinLine w := by
  simpa [WithinLine, isLineEnd, and_assoc] using h

/-- Within a line nothing changes, so what stands there is found in both texts or in neither. -/
theorem crlf_eq_append_iff (hw : WithinLine w) :
    crlf s = w ++ t ↔ ∃ r, s = w ++ r ∧ t = crlf r := by
  induction w generalizing s with
  | nil => simp [eq_comm]
  | cons c w ih =>
    obtain ⟨hn, hr, hw⟩ := ne_of_withinLine hw
    cases s with
    | nil => simp
    | cons d s =>
      by_cases hd : d = '\n'
      · subst hd
        simp [Ne.symm hn, Ne.symm hr]
      · simp [crlf_cons hd, ih hw, and_assoc]

section Runs

variable (hn : p '\n' = false) (hr : p '\r' = false)
include hn hr

theorem dropWhile_crlf (s : List Char) : (crlf s).dropWhile p = crlf (s.dropWhile p) := by
  induction s with
  | nil => rfl
  | cons c s ih =>
    by_cases hc : c = '\n'
    · subst hc
      simp [hn, hr]
    · by_cases hp : p c = true <;> simp [crlf_cons hc, hp, ih]

theorem takeWhile_crlf (s : List Char) : (crlf s).takeWhile p = s.takeWhile p := by
  induction s with
  | nil => rfl
  | cons c s ih =>
    by_cases hc : c = '\n'
    · subst hc
      simp [hn, hr]
    · by_cases hp : p c = true <;> simp [crlf_cons hc, hp, ih]

theorem stopsAt_crlf : StopsAt p (crlf s) ↔ StopsAt p s := by
  cases s with
  | nil => rfl
  | cons c s =>
    by_cases hc : c = '\n'
    · subst hc
      simp [hn, hr]
    · simp [crlf_cons hc]

end Runs

theorem length_le_crlf (s : List Char) : s.length ≤ (crlf s).length := by
  induction s with
  | nil => simp
  | cons c s ih => by_cases hc : c = '\n' <;> simp [hc, crlf_cons] <;> omega

theorem count_crlf (s : List Char) : (crlf s).count '\n' = s.count '\n' := by
  induction s with
  | nil => rfl
  | cons c s ih => by_cases hc : c = '\n' <;> simp [hc, crlf_cons, ih]

theorem count_dropReturns (s : List Char) : (dropReturns s).count '\n' = s.count '\n' :=
  List.count_filter rfl

theorem dropReturns_crlf (h : '\r' ∉ s) : dropReturns (crlf s) = s := by
  induction s with
  | nil => rfl
  | cons c s ih =>
    obtain ⟨hc, hs⟩ := not_or.1 (fun hmem => h (List.mem_cons.2 hmem))
    by_cases hn : c = '\n'
    · subst hn
      simpa [dropReturns] using ih hs
    · simpa [dropReturns, crlf_cons hn, Ne.symm hc] using ih hs

theorem crlf_append (s t : List Char) : crlf (s ++ t) = crlf s ++ crlf t := List.flatMap_append

theorem dropReturns_append (s t : List Char) :
    dropReturns (s ++ t) = dropReturns s ++ dropReturns t :=
  List.filter_append ..

/-- A string is escaped before or after its line ends are changed. -/
theorem crlf_escape (s : List Char) : crlf (Token.escape s) = Token.escape (crlf s) := by
  induction s with
  | nil => rfl
  | cons c s ih =>
    by_cases hc : c = '"' ∨ c = '\\'
    · have hn : c ≠ '\n' := by rcases hc with rfl | rfl <;> decide
      rw [Token.escape_cons_marked hc, crlf_cons (by decide), crlf_cons hn, crlf_cons hn,
        Token.escape_cons_marked hc, ih]
    · rw [Token.escape_cons_plain hc]
      by_cases hn : c = '\n'
      · subst hn
        simp [Token.escape_cons_plain, ih]
      · rw [crlf_cons hn, crlf_cons hn, Token.escape_cons_plain hc, ih]

theorem dropReturns_escape (s : List Char) :
    dropReturns (Token.escape s) = Token.escape (dropReturns s) := by
  induction s with
  | nil => rfl
  | cons c s ih =>
    by_cases hc : c = '"' ∨ c = '\\'
    · have hr : c ≠ '\r' := by rcases hc with rfl | rfl <;> decide
      rw [Token.escape_cons_marked hc, dropReturns_cons (by decide), dropReturns_cons hr,
        dropReturns_cons hr, Token.escape_cons_marked hc, ih]
    · rw [Token.escape_cons_plain hc]
      by_cases hr : c = '\r'
      · subst hr
        simpa [dropReturns] using ih
      · rw [dropReturns_cons hr, dropReturns_cons hr, Token.escape_cons_plain hc, ih]

/-- The last line feed of a text is dropped before or after the carriage returns. -/
theorem dropReturns_dropLastLineFeed (s : List Char) :
    dropReturns (Token.dropLastLineFeed s) = Token.dropLastLineFeed (dropReturns s) := by
  have herase (l : List Char) : dropReturns (l.erase '\n') = (dropReturns l).erase '\n' := by
    induction l with
    | nil => rfl
    | cons c l ih =>
      by_cases hn : c = '\n'
      · subst hn
        simp [dropReturns]
      · by_cases hr : c = '\r' <;> simp_all [dropReturns]
  have hreverse (l : List Char) : dropReturns l.reverse = (dropReturns l).reverse :=
    List.filter_reverse ..
  rw [Token.dropLastLineFeed, hreverse, herase, hreverse, Token.dropLastLineFeed]

end Text

open Text

namespace Grammar.Parser

/-! ## Tokens -/

/-- The same text with the two kinds of line ends. -/
def Mirrors (s s' : List Char) : Prop := '\r' ∉ s ∧ s' = crlf s

variable {α : Type}

/-- A token that is the same with the two kinds of line ends. -/
theorem Shrinks.mirrors {p : Parser α} (hp : Shrinks p)
    (h : ∀ s, '\r' ∉ s → p.run (crlf s) = (p.run s).map fun x => (x.1, crlf x.2)) :
    Pairs Mirrors Mirrors id p p := by
  rintro s _ ⟨hs, rfl⟩
  rw [h s hs]
  cases hrun : p.run s with
  | none => exact .inl ⟨rfl, rfl⟩
  | some x =>
    exact .inr ⟨x.1, x.2, crlf x.2, rfl, rfl, fun hmem => hs ((hp hrun).subset hmem), rfl⟩

/-- A word of one line, before a rest of some kind. -/
theorem Shrinks.mirrors_word {p : Parser Unit} (hshrinks : Shrinks p) {w : List Char}
    (hw : WithinLine w) {Rest : List Char → Prop} (hrest : ∀ r, Rest (crlf r) ↔ Rest r)
    (hp : ∀ s r, p.run s = some ((), r) ↔ s = w ++ r ∧ Rest r) :
    Pairs Mirrors Mirrors id p p := by
  refine hshrinks.mirrors fun s _ => Option.ext fun ⟨_, r'⟩ => ?_
  rw [hp, crlf_eq_append_iff hw, Option.map_eq_some_iff]
  constructor
  · rintro ⟨⟨r, hs, rfl⟩, hr⟩
    exact ⟨((), r), (hp s r).2 ⟨hs, (hrest r).1 hr⟩, rfl⟩
  · rintro ⟨⟨_, r⟩, hrun, he⟩
    cases he
    obtain ⟨hs, hr⟩ := (hp s r).1 hrun
    exact ⟨⟨r, hs, rfl⟩, (hrest r).2 hr⟩

theorem word_mirrors (w : List Char) (hw : WithinLine w) :
    Pairs Mirrors Mirrors id (word w) (word w) :=
  (word_shrinks w).mirrors_word hw (fun _ => Iff.rfl) fun s r => by rw [run_word_iff, and_true]

theorem keyword_mirrors (w : List Char) (hw : WithinLine w) :
    Pairs Mirrors Mirrors id (silent (Token.keyword w)) (silent (Token.keyword w)) :=
  (keyword_shrinks w).mirrors_word hw (fun _ => stopsAt_crlf rfl rfl) fun _ _ =>
    Token.keyword_eq_some_iff

theorem operator_mirrors {op : Parser BinOp} {symbol? : Char → Option BinOp}
    (hop : IsOperator op symbol?) (hn : symbol? '\n' = none) (hr : symbol? '\r' = none) :
    Pairs Mirrors Mirrors id op op := by
  refine hop.shrinks.mirrors fun s _ => ?_
  cases s with
  | nil => simp [hop.nil]
  | cons c s =>
    by_cases hc : c = '\n'
    · subst hc
      simp [hop.cons, hn, hr]
    · simp [hop.cons, crlf_cons hc, Function.comp_def]

theorem lineEnd_mirrors : Pairs Mirrors Mirrors id lineEnd lineEnd := by
  refine lineEnd_shrinks.mirrors fun s hs => ?_
  cases s with
  | nil => rfl
  | cons c s =>
    by_cases hc : c = '\n'
    · subst hc
      rfl
    · have hr : c ≠ '\r' := fun he => hs (by simp [he])
      simp [lineEnd, Token.lineEnd, crlf_cons hc, hc, hr]

theorem gap_mirrors : Pairs Mirrors Mirrors id gap gap :=
  gap_shrinks.mirrors fun s _ => by simp [dropWhile_crlf (p := isGap) rfl rfl]

theorem endOfInput_mirrors : Pairs Mirrors Mirrors id endOfInput endOfInput := by
  refine endOfInput_shrinks.mirrors fun s _ => ?_
  cases s with
  | nil => rfl
  | cons c s => by_cases hc : c = '\n' <;> simp [endOfInput, hc, crlf_cons]

theorem identifier_mirrors : Pairs Mirrors Mirrors id identifier identifier := by
  refine identifier_shrinks.mirrors fun s _ => ?_
  cases s with
  | nil => rfl
  | cons c s =>
    by_cases hc : c = '\n'
    · subst hc
      rfl
    · have hname := takeWhile_crlf (p := isNameChar) rfl rfl s
      have hrest := dropWhile_crlf (p := isNameChar) rfl rfl s
      by_cases hl : isLetter c = true <;>
        simp [identifier, Token.name, crlf_cons hc, hl, hname, hrest]

theorem number_mirrors : Pairs Mirrors Mirrors id number number := by
  have hdigits := takeWhile_crlf (p := isDigit) rfl rfl
  have hrest := dropWhile_crlf (p := isDigit) rfl rfl
  refine number_shrinks.mirrors fun s _ => ?_
  simp only [number, run_named, run_silent, Token.number, hdigits, hrest]
  rcases s.dropWhile isDigit with - | ⟨c, r⟩
  · cases s.takeWhile isDigit <;> rfl
  by_cases hc : c = '\n'
  · subst hc
    cases s.takeWhile isDigit <;> rfl
  by_cases hp : c = '.'
  · subst hp
    cases s.takeWhile isDigit with
    | nil =>
      simp only [crlf_cons hc, hdigits, hrest]
      cases r.takeWhile isDigit <;> rfl
    | cons d whole => simp only [crlf_cons hc, hdigits, hrest, Option.map_some]
  · cases s.takeWhile isDigit <;> simp [crlf_cons hc, hp]

theorem restOfLine_mirrors : Pairs Mirrors Mirrors id restOfLine restOfLine := by
  refine Shrinks.mirrors ?_ fun s _ => ?_
  · intro s text r h
    cases h
    exact List.dropWhile_suffix _
  · have htext : (crlf s).takeWhile (fun c => !isLineEnd c) = s.takeWhile fun c => !isLineEnd c :=
      takeWhile_crlf rfl rfl s
    have hrest := dropWhile_crlf (p := fun c => !isLineEnd c) rfl rfl s
    simp [restOfLine, Token.restOfLine, htext, hrest]

theorem commandText_mirrors : Pairs Mirrors Mirrors id commandText commandText :=
  gap_mirrors.bind fun _ => restOfLine_mirrors.bind fun _ => .pure rfl

/-- Two parsers that take the same texts may stand for each other. -/
theorem Pairs.of_run {R R' : List Char → List Char → Prop} {f : α → α} {p q : Parser α}
    (hrun : ∀ s, p.run s = q.run s) (h : Pairs R R' f q q) : Pairs R R' f p p := by
  intro s s' hs
  rw [hrun s, hrun s']
  exact h hs

theorem comment_mirrors : Pairs Mirrors Mirrors id comment comment := by
  have hparts : Pairs Mirrors Mirrors id (word ['#'] >>= fun _ => String.ofList <$> restOfLine)
      (word ['#'] >>= fun _ => String.ofList <$> restOfLine) :=
    (word_mirrors ['#'] rfl).bind fun _ => restOfLine_mirrors.map fun _ => rfl
  refine hparts.of_run fun s => ?_
  rcases note_cases s with hs | ⟨v, rfl⟩
  · rw [comment_eq_none hs, run_bind, run_word_of_stopsAt hs]
    rfl
  · rfl

theorem helpText_crlf (s : List Char) (hs : '\r' ∉ s) :
    dropReturns (Token.helpText (crlf s)).1 = (Token.helpText s).1 ∧
      (Token.helpText (crlf s)).2 = crlf (Token.helpText s).2 := by
  fun_induction Token.helpText s with
  | case1 => exact ⟨rfl, rfl⟩
  | case2 s => simp [crlf_cons, Token.helpText, dropReturns]
  | case3 c s hmark t r h ih =>
    have hs' : '\r' ∉ s := fun hmem => hs (by simp [hmem])
    have hr : c ≠ '\r' := fun he => hs (by simp [he])
    by_cases hn : c = '\n'
    · subst hn
      simpa [Token.helpText, dropReturns, h] using ih hs'
    · have hmark' : ∀ u, c = '@' → crlf s = '@' :: '@' :: u → False := by
        intro u hc hu
        obtain ⟨r, hr, -⟩ := (crlf_eq_append_iff (w := ['@', '@']) rfl).1 hu
        exact hmark r hc hr
      rw [crlf_cons hn, Token.helpText]
      · simpa [dropReturns_cons hr, h] using ih hs'
      · exact hmark'

theorem enclosed_mirrors {opening : Parser Unit} {text : List Char → List Char × List Char}
    (closing : List Char) (value : List Char → List Char)
    (hopening : Pairs Mirrors Mirrors id opening opening) (hsuffix : ∀ s, (text s).2 <:+ s)
    (htext : ∀ s, '\r' ∉ s →
      dropReturns (text (crlf s)).1 = (text s).1 ∧ (text (crlf s)).2 = crlf (text s).2)
    (hclosing : WithinLine closing)
    (hvalue : ∀ inside, dropReturns (value inside) = value (dropReturns inside)) :
    Pairs Mirrors Mirrors (Text.reword dropReturns) (enclosed opening text closing value)
      (enclosed opening text closing value) := by
  have hinside : Pairs Mirrors Mirrors dropReturns (silent fun s => some (text s))
      (silent fun s => some (text s)) := by
    rintro s _ ⟨hs, rfl⟩
    obtain ⟨htaken, hrest⟩ := htext s hs
    refine .inr ⟨_, (text s).2, (text (crlf s)).2, ?_, rfl, ?_, hrest⟩
    · rw [run_silent, htaken]
    · exact fun hmem => hs ((hsuffix s).subset hmem)
  refine hopening.bind fun _ => hinside.bind fun inside =>
    (word_mirrors closing hclosing).bind fun _ => .pure ?_
  simp [Text.reword, hvalue]

theorem string_mirrors : Pairs Mirrors Mirrors (Text.reword dropReturns) string string := by
  rintro s _ ⟨hs, rfl⟩
  simp only [string, run_named, run_silent]
  cases h : Token.string s with
  | some a =>
    obtain ⟨x, r⟩ := a
    obtain rfl := Token.string_eq_some_iff.1 h
    have hx : '\r' ∉ x.toList := fun hmem => hs (by simp [Token.mem_escape hmem])
    have hr : '\r' ∉ r := fun hmem => hs (by simp [hmem])
    refine .inr ⟨String.ofList (crlf x.toList), r, crlf r, ?_, ?_, hr, rfl⟩
    · simp [Text.reword, dropReturns_crlf hx]
    · rw [Token.string_eq_some_iff, String.toList_ofList, crlf_cons (by decide), crlf_append,
        crlf_escape, crlf_cons (by decide)]
  | none =>
    refine .inl ⟨rfl, Option.eq_none_iff_forall_ne_some.2 ?_⟩
    rintro ⟨y, r⟩ hy
    -- without its carriage returns the string would be one of the first text as well
    have hback : s = '"' :: (Token.escape (dropReturns y.toList) ++ '"' :: dropReturns r) := by
      rw [← dropReturns_crlf hs, Token.string_eq_some_iff.1 hy, dropReturns_cons (by decide),
        dropReturns_append, dropReturns_escape, dropReturns_cons (by decide)]
    rw [hback, ← String.toList_ofList (l := dropReturns y.toList), Token.string_append] at h
    cases h

theorem helpBlock_mirrors : Pairs Mirrors Mirrors (Text.reword dropReturns)
    (silent Token.helpBlock) (silent Token.helpBlock) := by
  have hopening : Pairs Mirrors Mirrors id helpOpening helpOpening :=
    (word_mirrors ['@', '@', '@'] rfl).bind fun _ => gap_mirrors.bind fun _ => lineEnd_mirrors
  have hparts := enclosed_mirrors ['@', '@', '@'] Token.dropLastLineFeed hopening
    Token.helpText_suffix helpText_crlf rfl dropReturns_dropLastLineFeed
  exact hparts.of_run run_helpBlock_enclosed

theorem here_mirrors : Pairs Mirrors Mirrors dropReturns here here := by
  rintro s _ ⟨hs, rfl⟩
  exact .inr ⟨crlf s, s, crlf s, by rw [run_here, dropReturns_crlf hs], run_here _, hs, rfl⟩

theorem sameTokens_mirrors : SameTokens Mirrors dropReturns where
  here := here_mirrors
  endOfInput := endOfInput_mirrors
  gap := gap_mirrors
  lineEnd := lineEnd_mirrors
  word := word_mirrors
  keyword := keyword_mirrors
  sumOperator := operator_mirrors isOperator_sum rfl rfl
  productOperator := operator_mirrors isOperator_product rfl rfl
  identifier := identifier_mirrors
  number := number_mirrors
  string := string_mirrors
  comment := comment_mirrors
  commandText := commandText_mirrors
  helpBlock := helpBlock_mirrors

theorem opens_mirrors : Opens Mirrors Mirrors where
  word c hc := word_mirrors [c] hc
  close _ _ hs := hs

/-! ## Scripts -/

theorem expression_mirrors : ∀ depth, Pairs Mirrors Mirrors (Expr.reword dropReturns)
    (expression depth) (expression depth)
  | 0 => fun _ _ _ => .inl ⟨rfl, rfl⟩
  | depth + 1 => sameTokens_mirrors.sum sameTokens_mirrors opens_mirrors (expression_mirrors depth)
      (expression_shrinks depth) (expression_shrinks depth)

theorem body_mirrors : ∀ depth, Pairs Mirrors Mirrors (List.map (rewordPlaced dropReturns))
    (Parser.body depth) (Parser.body depth)
  | 0 => fun _ _ _ => .inl ⟨rfl, rfl⟩
  | depth + 1 => sameTokens_mirrors.lines sameTokens_mirrors opens_mirrors
      (expression_mirrors (depth + 1)) (body_mirrors depth) (expression_shrinks _)
      (expression_shrinks _) (body_shrinks depth) (body_shrinks depth)

end Grammar.Parser

/-- The phrases of a text do not depend on the kind of its line ends. -/
theorem Grammar.phrases?_crlf {s : List Char} (hs : '\r' ∉ s) :
    phrases? s = (phrases? (crlf s)).map (List.map (rewordPlaced dropReturns)) := by
  -- each text has its own bound on the depth, and the greater one does for both
  have hdepth : (script (s.length + 1)).run s = (script ((crlf s).length + 1)).run s :=
    script_depth (Nat.lt_succ_self _) (Nat.lt_succ_of_le (length_le_crlf s))
  rw [phrases?, phrases?, hdepth]
  rcases sameTokens_mirrors.script (body_mirrors ((crlf s).length + 1)) ⟨hs, rfl⟩ with
    ⟨hp, hq⟩ | ⟨phrases, r, r', hp, hq, -⟩
  · rw [hp, hq]
    rfl
  · rw [hp, hq]
    rfl

/-- Lines are counted by their line feeds. -/
theorem lineOf_crlf (source rest : List Char) :
    lineOf source (dropReturns rest) = lineOf (crlf source) rest := by
  rw [lineOf, lineOf, count_crlf, count_dropReturns]

theorem Script.parse_eq_ok_crlf {source : String} (h : '\r' ∉ source.toList)
    {filename : Option String} {script : Script} :
    parse source filename = .ok script ↔
      ∃ script', parse (Text.reword crlf source) filename = .ok script' ∧
        script'.reword dropReturns = script := by
  have hsource : (Text.reword crlf source).toList = crlf source.toList := String.toList_ofList
  rw [parse_eq_ok_iff, phrases?_crlf h]
  simp only [parse_eq_ok_iff, hsource, Option.map_eq_some_iff]
  constructor
  · rintro ⟨_, ⟨ps, hps, rfl⟩, hscript⟩
    rw [ofPhrases_reword (lineOf_crlf source.toList)] at hscript
    cases hscript' : ofPhrases (crlf source.toList) ps with
    | error e =>
      rw [hscript'] at hscript
      cases hscript
    | ok script' =>
      rw [hscript'] at hscript
      exact ⟨script', ⟨ps, hps, hscript'⟩, Except.ok.inj hscript⟩
  · rintro ⟨script', ⟨ps, hps, hscript'⟩, rfl⟩
    refine ⟨_, ⟨ps, hps, rfl⟩, ?_⟩
    rw [ofPhrases_reword (lineOf_crlf source.toList), hscript']
    rfl

/-- **The kind of line ends makes no difference.** A text without carriage returns is a script just
if it is one with a carriage return before each line feed, and then the two scripts are equal, with
their line numbers, once the carriage returns are taken out of the help texts, the texts of
arguments and the text literals of the second. -/
theorem Script.parse_crlf {source : String} (h : '\r' ∉ source.toList) (filename : Option String) :
    ((∃ script', parse (Text.reword crlf source) filename = .ok script') ↔
        ∃ script, parse source filename = .ok script) ∧
      ∀ script script', parse source filename = .ok script →
        parse (Text.reword crlf source) filename = .ok script' →
        script'.reword dropReturns = script := by
  refine ⟨⟨?_, ?_⟩, ?_⟩
  · rintro ⟨script', hscript'⟩
    exact ⟨_, (parse_eq_ok_crlf h).2 ⟨script', hscript', rfl⟩⟩
  · rintro ⟨script, hscript⟩
    obtain ⟨script', hscript', -⟩ := (parse_eq_ok_crlf h).1 hscript
    exact ⟨script', hscript'⟩
  · intro script script' hscript hscript'
    obtain ⟨other, hother, rfl⟩ := (parse_eq_ok_crlf h).1 hscript
    rw [hscript'] at hother
    cases hother
    rfl

/-- Texts of two lines: the script's help, a literal and the help of an argument. -/
def twoLines : String :=
  "@@@\nA\nB\n@@@\nx = \"a\nb\" # c\nt \x7b\n <m> \"d\ne\"\n $ ls # f\n\x7d"

theorem parse_crlf_twoLines :
    ∃ script script', '\r' ∉ twoLines.toList ∧ Script.parse twoLines none = .ok script ∧
      Script.parse (Text.reword crlf twoLines) none = .ok script' ∧
      script.help = some "A\nB" ∧ script'.help = some "A\r\nB\r" ∧
      script'.reword dropReturns = script := by
  have hreturn : '\r' ∉ twoLines.toList := by decide
  have hscript : Script.parse twoLines none =
      .ok ⟨some "A\nB", [.assign ⟨"x", .text "a\nb", 5⟩, .comment " c",
        .target ⟨"t", none, [.arg ⟨"m", true, some "d\ne"⟩, .command "ls # f" 10], 7⟩]⟩ :=
    Script.parse_eq_ok_iff.2 ⟨_, rfl, rfl⟩
  have hscript' : Script.parse (Text.reword crlf twoLines) none =
      .ok ⟨some "A\r\nB\r", [.assign ⟨"x", .text "a\r\nb", 5⟩, .comment " c",
        .target ⟨"t", none, [.arg ⟨"m", true, some "d\r\ne"⟩, .command "ls # f" 10], 7⟩]⟩ :=
    Script.parse_eq_ok_iff.2 ⟨_, rfl, rfl⟩
  exact ⟨_, _, hreturn, hscript, hscript', rfl, rfl,
    (Script.parse_crlf hreturn none).2 _ _ hscript hscript'⟩

end TaskRunner
