import TaskRunner.Proofs.Extension
import TaskRunner.Proofs.Placement

/-!
# Scripts one after the other

Two scripts with a line feed between them are one script: the items of the first and then those of
the second, on lines further down (`parse_append`). The first script is read as before, because what
it goes on with is a new line (`Extension`). The second one starts after a line end, and there a line
is read as it is at the start of a text. The line feed may also be the second half of a line end
whose first half is at the end of the first script, which makes one empty line less and no
difference.

Placing the phrases is a loop that starts with nothing for the second script alone, and with the
first script for both together. `merge` relates the two states at every phrase.
-/
namespace TaskRunner

open Grammar
open Text (StopsAt)

/-! ## The phrases of two scripts -/

mutual

theorem Grammar.Phrase.extend_nil : ∀ phrase : Phrase, phrase.extend [] = phrase
  | .block name body => by rw [Phrase.extend, extendAll_nil body]
  | .comment _ => rfl
  | .help _ => rfl
  | .assign _ _ => rfl
  | .oneLine _ _ => rfl
  | .command _ => rfl
  | .python _ => rfl
  | .arg _ => rfl
  | .exit _ => rfl
  | .yield => rfl

theorem Grammar.extendAll_nil : ∀ phrases : List Placed, extendAll [] phrases = phrases
  | [] => rfl
  | (s, phrase) :: rest => by
    rw [extendAll, List.append_nil, Phrase.extend_nil phrase, extendAll_nil rest]

end

namespace Grammar.Parser

section

variable {expr expr' : Parser Expr} {body body' : Parser (List Placed)} {s r : List Char}

/-- Lines up to the end of a text, the first of which may be empty as the others may. -/
def ReadsLines (expr : Parser Expr) (body : Parser (List Placed)) (s : List Char)
    (ls : List (Option (List Placed))) : Prop :=
  ∃ first u rest r, ls = first :: rest ∧
    (Parser.optional (line expr body)).run (s.dropWhile isGap) = some (first, u) ∧
    Runs (nextLine expr body) u rest r ∧ r.dropWhile isGap = []

theorem endsIn_of_dropGap {cs : List Char} (h : r.dropWhile isGap = []) : EndsIn cs r := by
  rw [EndsIn, h]
  exact Text.stopsAt_nil

/-- One more line, in front of lines whose phrases are known. -/
theorem flatMap_extend {t : List Char} {o : Option (List Placed)}
    {rest ls : List (Option (List Placed))} {phrases : List Placed}
    (h : ls.flatMap (·.getD []) = extendAll t (rest.flatMap (·.getD [])) ++ phrases) :
    (o.map (extendAll t) :: ls).flatMap (·.getD []) =
      extendAll t ((o :: rest).flatMap (·.getD [])) ++ phrases := by
  rw [List.flatMap_cons, h, List.flatMap_cons, extendAll_append, List.append_assoc]
  cases o <;> simp [extendAll]

/-- The first line of a text is read behind a line end as it is at the start. -/
theorem ReadsLines.nextLines (hexpr : Shrinks expr) (hbody : Shrinks body)
    {ls : List (Option (List Placed))} (h : ReadsLines expr body s ls) :
    ∃ r, r.dropWhile isGap = [] ∧
      ∀ v, Token.lineEnd (v.dropWhile isGap) = some ((), s) → Runs (nextLine expr body) v ls r := by
  obtain ⟨first, u, rest, r, rfl, hfirst, hrest, hr⟩ := h
  refine ⟨r, hr, fun v hv => ?_⟩
  have hnext : (nextLine expr body).run v = some (first, u) := run_nextLine_iff.2 ⟨s, hv, hfirst⟩
  exact .step hnext (nextLine_strict hexpr hbody hnext) hrest

variable (hexpr : Carries [] ExprEnd id expr expr')
  (hnone : ∀ s, StopsAt isFactorStart s → expr'.run s = none)
  (hbody : Carries [] (Before '\x7d') (extendAll []) body body')

include hexpr hnone hbody in
/-- With more room for brackets a text is read in the same way. -/
theorem ReadsLines.deepen {ls : List (Option (List Placed))} (h : ReadsLines expr body s ls) :
    ReadsLines expr' body' s ls := by
  obtain ⟨first, u, rest, r, rfl, hfirst, hrest, hr⟩ := h
  have hmap : Option.map (extendAll []) = (id : Option (List Placed) → _) := by
    funext o
    cases o <;> simp [extendAll_nil]
  have hfirst' := optional_line_extend newLine_nil hexpr hnone hbody
    (Text.stopsAt_dropWhile isGap s) hfirst
    (hrest.endsIn_start (endsIn_of_dropGap hr))
  have hrest' := nextLines_extend newLine_nil hexpr hnone hbody hrest (endsIn_of_dropGap hr)
    (by rw [hr]; exact Text.stopsAt_nil) fun _ => rfl
  simp only [hmap, List.append_nil, List.map_id, id_eq] at hfirst' hrest'
  exact ⟨first, u, rest, r, rfl, hfirst', hrest', hr⟩

end

section

variable {expr expr' : Parser Expr} {body body' : Parser (List Placed)} {s₂ : List Char}
  (hexpr : Carries ('\n' :: s₂) ExprEnd id expr expr')
  (hnone : ∀ s, StopsAt isFactorStart s → expr'.run s = none)
  (hbody : Carries ('\n' :: s₂) (Before '\x7d') (extendAll ('\n' :: s₂)) body body')
  (hexprShrinks : Shrinks expr') (hbodyShrinks : Shrinks body')
include hexpr hnone hbody hexprShrinks hbodyShrinks

/-- The lines of a text, and behind them those of another. -/
theorem nextLines_append {ls₂ : List (Option (List Placed))} {r₂ : List Char}
    (h₂ : ∀ v, Token.lineEnd (v.dropWhile isGap) = some ((), s₂) →
      Runs (nextLine expr' body') v ls₂ r₂)
    {s r : List Char} {rest : List (Option (List Placed))} (h : Runs (nextLine expr body) s rest r)
    (hr : r.dropWhile isGap = []) :
    ∃ ls, Runs (nextLine expr' body') (s ++ '\n' :: s₂) ls r₂ ∧
      ls.flatMap (·.getD []) =
        extendAll ('\n' :: s₂) (rest.flatMap (·.getD [])) ++ ls₂.flatMap (·.getD []) := by
  have ht := newLine_cons s₂
  induction h with
  | @done s _ =>
    refine ⟨ls₂, h₂ _ ?_, by simp [extendAll]⟩
    rw [ht.dropGap, hr]
    rfl
  | @step s u r o rest hstep _ hrest ih =>
    by_cases hreturn : s.dropWhile isGap = ['\r']
    · -- the line feed belongs to the last line end of the text
      obtain ⟨rfl, rfl⟩ := nextLine_return hstep hreturn
      cases hrest with
      | step hnext _ _ => exact absurd rfl (nextLine_start hnext).2
      | done _ =>
        refine ⟨ls₂, h₂ _ ?_, by simp [extendAll]⟩
        rw [ht.dropGap, hreturn]
        rfl
    · obtain ⟨ls, hls, hphrases⟩ := ih hr
      have hu : EndsIn lineStops u := hrest.endsIn_start (endsIn_of_dropGap hr)
      have hnext := nextLine_extend ht hexpr hnone hbody hstep (fun he => absurd he hreturn) hu
      exact ⟨o.map (extendAll ('\n' :: s₂)) :: ls,
        .step hnext (nextLine_strict hexprShrinks hbodyShrinks hnext) hls, flatMap_extend hphrases⟩

theorem ReadsLines.append {s₁ : List Char} {ls₁ ls₂ : List (Option (List Placed))}
    (h₁ : ReadsLines expr body s₁ ls₁) (h₂ : ReadsLines expr' body' s₂ ls₂) :
    ∃ ls, ReadsLines expr' body' (s₁ ++ '\n' :: s₂) ls ∧
      ls.flatMap (·.getD []) =
        extendAll ('\n' :: s₂) (ls₁.flatMap (·.getD [])) ++ ls₂.flatMap (·.getD []) := by
  have ht := newLine_cons s₂
  obtain ⟨first, u, rest, r, rfl, hfirst, hrest, hr⟩ := h₁
  obtain ⟨r₂, hr₂, hnext⟩ := h₂.nextLines hexprShrinks hbodyShrinks
  obtain ⟨ls, hls, hphrases⟩ :=
    nextLines_append hexpr hnone hbody hexprShrinks hbodyShrinks hnext hrest hr
  have hfirst' := optional_line_extend ht hexpr hnone hbody (Text.stopsAt_dropWhile isGap s₁) hfirst
    (hrest.endsIn_start (endsIn_of_dropGap hr))
  rw [← ht.dropGap] at hfirst'
  exact ⟨_, ⟨_, _, ls, r₂, rfl, hfirst', hls, hr₂⟩, flatMap_extend hphrases⟩

end

end Grammar.Parser

namespace Grammar

/-- Lines with the room for brackets that a text of the given length needs. -/
def ReadsAt (length : Nat) (s : List Char) (ls : List (Option (List Placed))) : Prop :=
  Parser.ReadsLines (Parser.nested (length + 1)) (.delay fun _ => Parser.body length) s ls

theorem phrases?_eq_some_iff {s : List Char} {phrases : List Placed} :
    phrases? s = some phrases ↔ ∃ ls, ReadsAt s.length s ls ∧ phrases = ls.flatMap (·.getD []) := by
  simp only [phrases?, Option.map_eq_some_iff, Prod.exists, Parser.run_script_iff,
    Parser.run_body_iff, Parser.dropGap_dropGap]
  constructor
  · rintro ⟨ps, _, ⟨r, ⟨first, u, rest, hfirst, hrest, rfl⟩, hr, -⟩, rfl⟩
    exact ⟨_, ⟨first, u, rest, r, rfl, hfirst, hrest, hr⟩, rfl⟩
  · rintro ⟨_, ⟨first, u, rest, r, rfl, hfirst, hrest, hr⟩, rfl⟩
    exact ⟨_, [], ⟨r, ⟨first, u, rest, hfirst, hrest, rfl⟩, hr, rfl⟩, rfl⟩

/-- A text that is one phrase, but for blanks behind it. -/
theorem phrases?_single {s r : List Char} {phrase : Phrase}
    (h : Parser.Takes (Parser.nested (s.length + 1)) (.delay fun _ => Parser.body s.length) s
      phrase r)
    (hr : r.dropWhile isGap = []) (hs : StopsAt isGap s) : phrases? s = some [(s, phrase)] := by
  have hline := Parser.run_line_iff.2 (.bare h (by rw [hr]; exact Text.stopsAt_nil))
  rw [hr] at hline
  refine phrases?_eq_some_iff.2
    ⟨[some [(s, phrase)]], ⟨_, [], [], [], rfl, ?_, .done rfl, rfl⟩, rfl⟩
  rw [Text.dropWhile_of_stopsAt hs]
  exact Parser.run_optional_some hline

/-- **The phrases of two texts with a line feed between them** are those of the first, in a text
that goes on, and those of the second. -/
theorem phrases?_append {s₁ s₂ : List Char} {ps₁ ps₂ : List Placed} (h₁ : phrases? s₁ = some ps₁)
    (h₂ : phrases? s₂ = some ps₂) :
    phrases? (s₁ ++ '\n' :: s₂) = some (extendAll ('\n' :: s₂) ps₁ ++ ps₂) := by
  obtain ⟨ls₁, hread₁, rfl⟩ := phrases?_eq_some_iff.1 h₁
  obtain ⟨ls₂, hread₂, rfl⟩ := phrases?_eq_some_iff.1 h₂
  have ht := newLine_cons s₂
  have hlen₁ : s₁.length ≤ (s₁ ++ '\n' :: s₂).length := by simp
  have hlen₂ : s₂.length ≤ (s₁ ++ '\n' :: s₂).length := by simp; omega
  have hnone : ∀ s, StopsAt Parser.isFactorStart s →
      (Parser.nested ((s₁ ++ '\n' :: s₂).length + 1)).run s = none :=
    fun s hs => Parser.expression_eq_none hs _
  have hdeep₂ : ReadsAt (s₁ ++ '\n' :: s₂).length s₂ ls₂ :=
    Parser.ReadsLines.deepen (Parser.expression_carries newLine_nil (Nat.succ_le_succ hlen₂)) hnone
      (Parser.body_carries newLine_nil hlen₂) hread₂
  obtain ⟨ls, hread, hphrases⟩ :=
    Parser.ReadsLines.append (Parser.expression_carries ht (Nat.succ_le_succ hlen₁)) hnone
      (Parser.body_carries ht hlen₁) (Parser.expression_shrinks _) (Parser.body_shrinks _) hread₁
      hdeep₂
  exact phrases?_eq_some_iff.2 ⟨ls, hread, hphrases.symm⟩

end Grammar

/-! ## Lines further down -/

def Statement.shift (k : Nat) : Statement → Statement
  | .assign a => .assign { a with line := a.line + k }
  | .command template line => .command template (line + k)
  | .python template line => .python template (line + k)
  | .exit code line => .exit code (line + k)
  | .comment text => .comment text
  | .arg a => .arg a
  | .yield => .yield

/-- A target and its statements, `k` lines further down. -/
def TargetDecl.shift (k : Nat) (t : TargetDecl) : TargetDecl :=
  { t with body := t.body.map (Statement.shift k), line := t.line + k }

/-- An item of a script, `k` lines further down. -/
def Item.shift (k : Nat) : Item → Item
  | .comment text => .comment text
  | .assign a => .assign { a with line := a.line + k }
  | .target t => .target (t.shift k)

/-- The places of a source are `k` lines further down in another, which goes on with `t`. -/
def Shifts (source source' t : List Char) (k : Nat) : Prop :=
  ∀ r, r <:+ source → lineOf source' (r ++ t) = lineOf source r + k

theorem shifts_front (s t : List Char) : Shifts s (s ++ t) t 0 := by
  intro r _
  simp only [lineOf, List.count_append]
  omega

theorem shifts_back (s₁ s₂ : List Char) :
    Shifts s₂ (s₁ ++ '\n' :: s₂) [] (1 + s₁.count '\n') := by
  intro r hr
  have hle : r.count '\n' ≤ s₂.count '\n' := hr.sublist.count_le '\n'
  simp only [lineOf, List.count_append, List.count_cons, List.append_nil, beq_self_eq_true, if_true]
  omega

namespace Grammar.Phrase

variable (t : List Char) (phrase : Phrase)

theorem statement?_extend (line : Nat) :
    (phrase.extend t).statement? line = phrase.statement? line := by
  cases phrase <;> simp [extend, statement?]

theorem argName?_extend : (phrase.extend t).argName? = phrase.argName? := by
  cases phrase <;> simp [extend, argName?]

theorem targetName?_extend : (phrase.extend t).targetName? = phrase.targetName? := by
  cases phrase <;> simp [extend, targetName?]

theorem statement?_shift (line k : Nat) :
    phrase.statement? (line + k) = (phrase.statement? line).map (Statement.shift k) := by
  cases phrase <;> rfl

end Grammar.Phrase

namespace TargetDecl

variable {source source' tail : List Char} {k : Nat}

theorem argsTaken_shift (t : TargetDecl) : (t.shift k).argsTaken = t.argsTaken := by
  have harg : ∀ s : Statement, (s.shift k).arg? = s.arg? := by
    intro s
    cases s <;> rfl
  simp only [argsTaken, args, shift, List.filterMap_map]
  congr 2
  funext s
  exact harg s

/-- **Step.** A phrase further down does the same to a target further down. -/
theorem accept_shift {t t' : TargetDecl} {line : Nat} {phrase : Phrase}
    (h : t.accept line phrase = .ok t') :
    (t.shift k).accept (line + k) (phrase.extend tail) = .ok (t'.shift k) := by
  rw [accept_eq_ok_iff] at h ⊢
  rcases h with ⟨text, rfl, hslot, rfl⟩ | ⟨s, hs, hnew, rfl⟩
  · exact .inl ⟨text, by rw [Phrase.extend], hslot, rfl⟩
  · refine .inr ⟨s.shift k, ?_, ?_, ?_⟩
    · rw [Phrase.statement?_extend, Phrase.statement?_shift, hs, Option.map_some]
    · rwa [Phrase.argName?_extend, argsTaken_shift]
    · simp [shift, push]

/-- **Run.** A target that stands further down has the same statements further down. -/
theorem ofPhrases_shift (hshift : Shifts source source' tail k) {name : String} {line : Nat}
    {body : List Placed} {t : TargetDecl} (hbody : ∀ q ∈ body, q.1 <:+ source)
    (h : ofPhrases source name line body = .ok t) :
    ofPhrases source' name (line + k) (extendAll tail body) = .ok (t.shift k) := by
  have hrun : ∀ (body : List Placed) (t t' : TargetDecl), (∀ q ∈ body, q.1 <:+ source) →
      body.foldlM (fun t p => t.accept (lineOf source p.1) p.2) t = .ok t' →
      (extendAll tail body).foldlM (fun t p => t.accept (lineOf source' p.1) p.2) (t.shift k) =
        .ok (t'.shift k) := by
    intro body
    induction body with
    | nil =>
      intro t t' _ h
      cases h
      rfl
    | cons p body ih =>
      intro t t' hbody h
      obtain ⟨mid, hstep, hrest⟩ := foldlM_cons_eq_ok.1 h
      have hrest' := ih mid t' (fun q hq => hbody q (by simp [hq])) hrest
      refine foldlM_cons_eq_ok.2 ⟨mid.shift k, ?_, hrest'⟩
      rw [hshift p.1 (hbody p (by simp))]
      exact accept_shift hstep
  exact hrun body _ t hbody h

end TargetDecl

theorem Stands.shift {source source' tail : List Char} {k : Nat}
    (hshift : Shifts source source' tail k) {line : Nat} {phrase : Phrase} {item : Item}
    (hinside : ∀ name body, phrase = .block name body → ∀ q ∈ body, q.1 <:+ source)
    (h : Stands source line phrase item) :
    Stands source' (line + k) (phrase.extend tail) (item.shift k) := by
  cases h with
  | comment text => rw [Phrase.extend]; exact .comment text
  | assign name value => rw [Phrase.extend]; exact .assign name value
  | oneLine name command => rw [Phrase.extend]; exact .oneLine name command
  | @block name body t ht =>
    rw [Phrase.extend]
    exact .block (TargetDecl.ofPhrases_shift hshift (hinside name body rfl) ht)

/-! ## The items of two scripts -/

namespace Script

/-- A script and behind it another, `k` lines further down. -/
def merge (k : Nat) (base s : Script) : Script :=
  ⟨base.help.or s.help, base.items ++ s.items.map (Item.shift k)⟩

theorem namesTaken_merge (k : Nat) (base s : Script) :
    (base.merge k s).namesTaken = base.namesTaken ++ s.namesTaken := by
  have htarget : ∀ item : Item, (item.shift k).target?.map TargetDecl.name =
      item.target?.map TargetDecl.name := by
    intro item
    cases item <;> rfl
  simp only [namesTaken, targets, merge, List.filterMap_append, List.map_append, List.filterMap_map,
    List.map_filterMap]
  congr 2
  funext item
  exact htarget item

theorem merge_push (k : Nat) (base s : Script) (item : Item) :
    base.merge k (s.push item) = (base.merge k s).push (item.shift k) := by
  simp [merge, push]

section

variable {source source' tail : List Char} {k : Nat} (base : Script)

/-- **Step.** A phrase further down does to the two scripts together what it does to the second. -/
theorem accept_merge (hshift : Shifts source source' tail k) {s s' : Script} {line : Nat}
    {phrase : Phrase}
    (hinside : ∀ name body, phrase = .block name body → ∀ q ∈ body, q.1 <:+ source)
    (hnames : ∀ n ∈ s'.namesTaken, n ∉ base.namesTaken) (hhelp : base.help = none ∨ s'.help = none)
    (h : s.accept source line phrase = .ok s') :
    (base.merge k s).accept source' (line + k) (phrase.extend tail) = .ok (base.merge k s') := by
  rw [accept_eq_ok_iff] at h ⊢
  rcases h with ⟨text, rfl, hslot, rfl⟩ | ⟨item, hstands, hnew, rfl⟩
  · have hbase : base.help = none := hhelp.resolve_right (by simp)
    exact .inl ⟨text, by rw [Phrase.extend], by simp [merge, hbase, hslot], by simp [merge, hbase]⟩
  · refine .inr ⟨item.shift k, hstands.shift hshift hinside, ?_, merge_push k base s item⟩
    intro n hn
    rw [Phrase.targetName?_extend] at hn
    rw [namesTaken_merge, List.mem_append, not_or]
    refine ⟨hnames n ?_, hnew n hn⟩
    rw [namesTaken_push, hstands.target_name, hn]
    simp

omit base in
/-- What is defined stays defined, and so does a help text. -/
theorem foldlM_accept_keeps {ps : List Placed} {s s' : Script}
    (h : ps.foldlM (fun s p => s.accept source (lineOf source p.1) p.2) s = .ok s') :
    (∀ n ∈ s.namesTaken, n ∈ s'.namesTaken) ∧ (s'.help = none → s.help = none) := by
  refine foldlM_invariant (fun mid : Script =>
    (∀ n ∈ s.namesTaken, n ∈ mid.namesTaken) ∧ (mid.help = none → s.help = none)) ?_
    ⟨fun _ hn => hn, id⟩ h
  rintro p - mid mid' ⟨hnames, hhelp⟩ hstep
  have hnamed := (checks source).names_eq mid p mid' hstep
  have hhelped := (checks source).help_eq mid p mid' hstep
  refine ⟨fun n hn => ?_, fun hnone => hhelp ?_⟩
  · rw [hnamed]
    exact List.mem_append_left _ (hnames n hn)
  · rw [hhelped, Option.or_eq_none_iff] at hnone
    exact hnone.2

/-- **Run.** Phrases further down make the second script behind the first. -/
theorem foldlM_accept_merge (hshift : Shifts source source' tail k) :
    ∀ {ps : List Placed} {s s' : Script},
    (∀ p ∈ ps, p.1 <:+ source ∧
      ∀ name body, p.2 = .block name body → ∀ q ∈ body, q.1 <:+ source) →
    (∀ n ∈ s'.namesTaken, n ∉ base.namesTaken) → (base.help = none ∨ s'.help = none) →
    ps.foldlM (fun s p => s.accept source (lineOf source p.1) p.2) s = .ok s' →
    (extendAll tail ps).foldlM (fun s p => s.accept source' (lineOf source' p.1) p.2)
      (base.merge k s) = .ok (base.merge k s')
  | [], s, s', _, _, _, h => by
    cases h
    rfl
  | p :: ps, s, s', hps, hnames, hhelp, h => by
    obtain ⟨mid, hstep, hrest⟩ := foldlM_cons_eq_ok.1 h
    obtain ⟨hkept, hslot⟩ := foldlM_accept_keeps hrest
    obtain ⟨hp, hinside⟩ := hps p (by simp)
    refine foldlM_cons_eq_ok.2 ⟨base.merge k mid, ?_, ?_⟩
    · rw [hshift p.1 hp]
      exact accept_merge base hshift hinside (fun n hn => hnames n (hkept n hn))
        (hhelp.imp_right hslot) hstep
    · exact foldlM_accept_merge hshift (fun q hq => hps q (by simp [hq])) hnames hhelp hrest

end

theorem shift_zero (item : Item) : item.shift 0 = item := by
  have hstatement : Statement.shift 0 = id := by
    funext s
    cases s <;> rfl
  cases item with
  | comment text => rfl
  | assign a => rfl
  | target t => simp [Item.shift, TargetDecl.shift, hstatement]

theorem merge_zero_empty (s : Script) : empty.merge 0 s = s := by
  have hshift : Item.shift 0 = id := funext shift_zero
  simp [merge, empty, hshift]

theorem merge_empty (k : Nat) (s : Script) : s.merge k empty = s := by
  simp [merge, empty]

/-- All phrases of a script, those in the bodies of targets included, stand in its text. -/
theorem suffix_of_phrases? {s : List Char} {ps : List Placed} (h : phrases? s = some ps) :
    ∀ p ∈ ps, p.1 <:+ s ∧ ∀ name body, p.2 = .block name body → ∀ q ∈ body, q.1 <:+ s := by
  have hwithin : Parser.Within (fun _ _ => True) s ps :=
    Parser.phrases?_within (fun _ => trivial) (fun _ => trivial) h
  rintro ⟨r, phrase⟩ hp
  obtain ⟨hr, heverywhere⟩ := hwithin _ hp
  cases heverywhere with
  | intro _ hinside _ => exact ⟨hr, fun name body he q hq => (hinside name body he q hq).trans hr⟩

/-- **Two scripts with a line feed between them are one script**, if they share no target name and
at most one of them has a help text: the items of the first, and those of the second on lines that
come after those of the first. -/
theorem parse_append {s₁ s₂ : String} {f₁ f₂ : Option String} {p₁ p₂ : Script}
    (h₁ : parse s₁ f₁ = .ok p₁) (h₂ : parse s₂ f₂ = .ok p₂)
    (hnames : ∀ t₁ ∈ p₁.targets, ∀ t₂ ∈ p₂.targets, t₁.name ≠ t₂.name)
    (hhelp : p₁.help = none ∨ p₂.help = none) (filename : Option String) :
    parse (s₁ ++ "\n" ++ s₂) filename =
      .ok ⟨p₁.help.or p₂.help,
        p₁.items ++ p₂.items.map (Item.shift (1 + s₁.toList.count '\n'))⟩ := by
  obtain ⟨ps₁, hps₁, hscript₁⟩ := parse_eq_ok_iff.1 h₁
  obtain ⟨ps₂, hps₂, hscript₂⟩ := parse_eq_ok_iff.1 h₂
  have hsource : (s₁ ++ "\n" ++ s₂).toList = s₁.toList ++ '\n' :: s₂.toList := by simp
  have hdisjoint : ∀ n ∈ p₂.namesTaken, n ∉ p₁.namesTaken := by
    intro n hn₂ hn₁
    obtain ⟨t₁, ht₁, rfl⟩ := List.mem_map.1 hn₁
    obtain ⟨t₂, ht₂, hname⟩ := List.mem_map.1 hn₂
    exact hnames t₁ ht₁ t₂ ht₂ hname.symm
  have hfirst := foldlM_accept_merge empty (shifts_front s₁.toList ('\n' :: s₂.toList))
    (suffix_of_phrases? hps₁) (by simp [empty, namesTaken, targets]) (.inl rfl) hscript₁
  rw [merge_zero_empty, merge_zero_empty] at hfirst
  have hsecond := foldlM_accept_merge p₁ (shifts_back s₁.toList s₂.toList)
    (suffix_of_phrases? hps₂) hdisjoint hhelp hscript₂
  rw [merge_empty, extendAll_nil] at hsecond
  refine parse_eq_ok_iff.2 ⟨_, hsource ▸ phrases?_append hps₁ hps₂, ?_⟩
  rw [hsource, ofPhrases]
  exact foldlM_append_eq_ok.2 ⟨p₁, hfirst, hsecond⟩

/-- The first script ends in a carriage return, to which the line feed is added. -/
theorem parse_append_sample :
    parse "x = \"a\nb\"\nt: echo\r" none =
        .ok ⟨none, [.assign ⟨"x", .text "a\nb", 1⟩,
          .target ⟨"t", none, [.command "echo" 3], 3⟩]⟩ ∧
      parse "@@@\nHi\n@@@\nu \x7b\n$ ls\n\x7d" none =
        .ok ⟨some "Hi", [.target ⟨"u", none, [.command "ls" 5], 4⟩]⟩ ∧
      parse ("x = \"a\nb\"\nt: echo\r" ++ "\n" ++ "@@@\nHi\n@@@\nu \x7b\n$ ls\n\x7d") none =
        .ok ⟨some "Hi", [.assign ⟨"x", .text "a\nb", 1⟩,
          .target ⟨"t", none, [.command "echo" 3], 3⟩,
          .target ⟨"u", none, [.command "ls" 8], 7⟩]⟩ := by
  have h₁ : parse "x = \"a\nb\"\nt: echo\r" none =
      .ok ⟨none, [.assign ⟨"x", .text "a\nb", 1⟩, .target ⟨"t", none, [.command "echo" 3], 3⟩]⟩ :=
    parse_eq_ok_iff.2 ⟨_, rfl, rfl⟩
  have h₂ : parse "@@@\nHi\n@@@\nu \x7b\n$ ls\n\x7d" none =
      .ok ⟨some "Hi", [.target ⟨"u", none, [.command "ls" 5], 4⟩]⟩ :=
    parse_eq_ok_iff.2 ⟨_, rfl, rfl⟩
  exact ⟨h₁, h₂, parse_append h₁ h₂ (by decide) (.inl rfl) none⟩

end Script

end TaskRunner
