import TaskRunner.Proofs.Phrases
import TaskRunner.Proofs.Placement

/-!
# In the order of the text

The phrases of a script come in the order in which they stand in the text, those of a body between
the start and the end of their target (`phrases?_inOrder`). A phrase that stands further back is on
no earlier line, so the line numbers of a script never go down, from one item to the next and,
inside of a target, from its own line through its body (`Script.lineNumbers_sorted`).
-/
namespace TaskRunner

open Grammar

namespace Grammar.Parser

/-! ## Phrases -/

/-- Phrases that stand one behind the other in a text, up to where `r` is left of it. What is inside
of a phrase stands between its start and its end. -/
inductive InOrder : List Char → List Placed → List Char → Prop
  | nil {s r : List Char} : r <:+ s → InOrder s [] r
  | cons {s p u r : List Char} {phrase : Phrase} {rest : List Placed} : p <:+ s → u <:+ p →
    (∀ name body, phrase = .block name body → InOrder p body u) → InOrder u rest r →
    InOrder s ((p, phrase) :: rest) r

namespace InOrder

variable {s t u r : List Char} {ps qs : List Placed}

theorem grow_front (h : InOrder s ps r) (hs : s <:+ t) : InOrder t ps r := by
  cases h with
  | nil hr => exact .nil (hr.trans hs)
  | cons hp hu hinside hrest => exact .cons (hp.trans hs) hu hinside hrest

theorem append (h : InOrder s ps u) (h' : InOrder u qs r) : InOrder s (ps ++ qs) r := by
  induction h with
  | nil hu => exact h'.grow_front hu
  | cons hp hv hinside _ _ ih => exact .cons hp hv hinside (ih h')

theorem grow_back (h : InOrder s ps u) (hr : r <:+ u) : InOrder s ps r := by
  have h' := h.append (.nil hr)
  rwa [List.append_nil] at h'

theorem single {phrase : Phrase} (hr : r <:+ s)
    (hinside : ∀ name body, phrase = .block name body → InOrder s body r) :
    InOrder s [(s, phrase)] r :=
  .cons (List.suffix_refl s) hr hinside (.nil (List.suffix_refl r))

end InOrder

section

variable {expr : Parser Expr} {body : Parser (List Placed)} {s r : List Char}
  (hexpr : Shrinks expr) (hbody : Shrinks body)
  (ih : ∀ {s phrases r}, body.run s = some (phrases, r) → InOrder s phrases r)
include hexpr hbody ih

theorem Takes.inOrder {phrase : Phrase} (h : Takes expr body s phrase r) :
    InOrder s [(s, phrase)] r := by
  refine .single (item_shrinks hexpr hbody (run_item_iff.2 h)) ?_
  rintro name phrases rfl
  cases h with
  | @block _ u v w x _ _ ends _ _ hu hv hw hx hr =>
    have hblank : Shrinks blankLineEnd := gap_shrinks.bind fun _ => lineEnd_shrinks
    have hvs : v <:+ s :=
      ((hv.suffix hblank).trans (List.dropWhile_suffix isGap)).trans (identifier_shrinks hu)
    have hws : w.dropWhile isGap <:+ s :=
      (List.dropWhile_suffix isGap).trans ((suffix_of_dropGap hw).trans hvs)
    exact ((ih hx).grow_front hws).grow_back (suffix_of_dropGap hr)

theorem optional_line_inOrder {o : Option (List Placed)}
    (h : (Parser.optional (line expr body)).run s = some (o, r)) : InOrder s (o.getD []) r := by
  have hnote (v : List Char) (text : String) :
      InOrder ('#' :: v) [('#' :: v, .comment text)] (Token.restOfLine v).2 :=
    .single ((List.dropWhile_suffix _).trans (List.suffix_cons '#' v)) fun _ _ he => by cases he
  rcases run_optional_iff.1 h with ⟨phrases, hs, rfl⟩ | ⟨-, rfl, rfl⟩
  · cases run_line_iff.1 hs with
    | bare hp _ => exact (hp.inOrder hexpr hbody ih).grow_back (List.dropWhile_suffix isGap)
    | @noted _ u v _ hp hv =>
      have hnoted := hnote v (String.ofList (Token.restOfLine v).1)
      rw [← hv] at hnoted
      exact ((hp.inOrder hexpr hbody ih).grow_back (List.dropWhile_suffix isGap)).append hnoted
    | @comment v => exact hnote v _
  · exact .nil (List.suffix_refl _)

theorem nextLines_inOrder {rest : List (Option (List Placed))}
    (h : Runs (nextLine expr body) s rest r) : InOrder s (rest.flatMap (·.getD [])) r := by
  induction h with
  | done _ => exact .nil (List.suffix_refl _)
  | @step s t r o rest hstep _ _ ihr =>
    obtain ⟨u, hu, ho⟩ := run_nextLine_iff.1 hstep
    have hus : u.dropWhile isGap <:+ s := (List.dropWhile_suffix isGap).trans
      ((lineEnd_shrinks hu).trans (List.dropWhile_suffix isGap))
    rw [List.flatMap_cons]
    exact ((optional_line_inOrder hexpr hbody ih ho).grow_front hus).append ihr

end

theorem body_inOrder : ∀ {depth : Nat} {s r : List Char} {phrases : List Placed},
    (Parser.body depth).run s = some (phrases, r) → InOrder s phrases r
  | 0, _, _, _, h => by cases h
  | depth + 1, s, r, phrases, h => by
    have hexpr := expression_shrinks (depth + 1)
    have hbody := body_shrinks depth
    obtain ⟨first, u, rest, hfirst, hrest, rfl⟩ := run_body_iff.1 h
    have hline := optional_line_inOrder hexpr hbody body_inOrder hfirst
    rw [List.flatMap_cons]
    exact (hline.grow_front (List.dropWhile_suffix isGap)).append
      (nextLines_inOrder hexpr hbody body_inOrder hrest)

/-- **The phrases of a script stand in its text in their order.** -/
theorem phrases?_inOrder {s : List Char} {phrases : List Placed} (h : phrases? s = some phrases) :
    InOrder s phrases [] := by
  obtain ⟨⟨ps, r⟩, hrun, rfl⟩ := Option.map_eq_some_iff.1 h
  obtain ⟨u, hu, -⟩ := run_script_iff.1 hrun
  exact ((body_inOrder hu).grow_front (List.dropWhile_suffix isGap)).grow_back List.nil_suffix

end Grammar.Parser

/-! ## Line numbers -/

/-- The line of a statement, of those that keep it. -/
def Statement.line? : Statement → Option Nat
  | .assign a => some a.line
  | .command _ line => some line
  | .python _ line => some line
  | .exit _ line => some line
  | .comment _ => none
  | .arg _ => none
  | .yield => none

/-- The line numbers in a target's body, in order. -/
def TargetDecl.bodyLines (t : TargetDecl) : List Nat := t.body.filterMap Statement.line?

/-- The line of an item, and behind it those of its body if it has one. -/
def Item.lineNumbers : Item → List Nat
  | .comment _ => []
  | .assign a => [a.line]
  | .target t => t.line :: t.bodyLines

/-- All line numbers of a script, in order. -/
def Script.lineNumbers (s : Script) : List Nat := s.items.flatMap Item.lineNumbers

/-- Numbers that never go down, from `low` to `high`. -/
def Rises (low : Nat) : List Nat → Nat → Prop
  | [], high => low ≤ high
  | n :: rest, high => low ≤ n ∧ Rises n rest high

namespace Rises

variable {a b c : Nat} {l m : List Nat}

theorem single (hab : a ≤ b) (hbc : b ≤ c) : Rises a [b] c := ⟨hab, hbc⟩

theorem lower (h : Rises b l c) (hab : a ≤ b) : Rises a l c := by
  cases l with
  | nil => exact Nat.le_trans hab h
  | cons n l => exact ⟨Nat.le_trans hab h.1, h.2⟩

theorem append (h : Rises a l b) (h' : Rises b m c) : Rises a (l ++ m) c := by
  induction l generalizing a with
  | nil => exact h'.lower h
  | cons n l ih => exact ⟨h.1, ih h.2⟩

theorem le_of_mem (h : Rises a l b) : ∀ n ∈ l, a ≤ n := by
  induction l generalizing a with
  | nil => simp
  | cons n l ih =>
    refine List.forall_mem_cons.2 ⟨h.1, fun m hm => Nat.le_trans h.1 (ih h.2 m hm)⟩

theorem pairwise (h : Rises a l b) : l.Pairwise (· ≤ ·) := by
  induction l generalizing a with
  | nil => exact .nil
  | cons n l ih => exact .cons (le_of_mem h.2) (ih h.2)

end Rises

/-- What stands further back is on no earlier line. -/
theorem lineOf_mono (source : List Char) {p r : List Char} (h : r <:+ p) :
    lineOf source p ≤ lineOf source r := by
  have hle : r.count '\n' ≤ p.count '\n' := h.sublist.count_le '\n'
  unfold lineOf
  omega

open Grammar.Parser (InOrder)

namespace TargetDecl

variable {source : List Char} {t t' : TargetDecl}

/-- **Step.** A phrase adds at most its own line. -/
theorem bodyLines_accept {line : Nat} {phrase : Phrase} (h : t.accept line phrase = .ok t') :
    t'.bodyLines = t.bodyLines ∨ t'.bodyLines = t.bodyLines ++ [line] := by
  rcases accept_eq_ok_iff.1 h with ⟨text, -, -, rfl⟩ | ⟨s, hs, -, rfl⟩
  · exact .inl rfl
  · cases phrase <;> cases hs <;> simp [bodyLines, push, Statement.line?]

/-- **Run.** The lines of a body go up with the phrases. -/
theorem bodyLines_foldlM {s r : List Char} {body : List Placed} (horder : InOrder s body r) :
    ∀ {t t' : TargetDecl},
      body.foldlM (fun t p => t.accept (lineOf source p.1) p.2) t = .ok t' →
      ∃ l, t'.bodyLines = t.bodyLines ++ l ∧ Rises (lineOf source s) l (lineOf source r) := by
  induction horder with
  | nil hr =>
    intro t t' h
    cases h
    exact ⟨[], by simp, lineOf_mono source hr⟩
  | @cons s p u r phrase rest hp hu _ _ _ ih =>
    intro t t' h
    obtain ⟨mid, hstep, hrest⟩ := foldlM_cons_eq_ok.1 h
    obtain ⟨l, hl, hrises⟩ := ih hrest
    have hps := lineOf_mono source hp
    have hup := lineOf_mono source hu
    rcases bodyLines_accept hstep with hmid | hmid
    · exact ⟨l, by rw [hl, hmid], hrises.lower (Nat.le_trans hps hup)⟩
    · exact ⟨_ :: l, by rw [hl, hmid, List.append_assoc]; rfl, (Rises.single hps hup).append hrises⟩

end TargetDecl

namespace Script

variable {source : List Char}

theorem lineNumbers_push (s : Script) (item : Item) :
    (s.push item).lineNumbers = s.lineNumbers ++ item.lineNumbers := by
  simp [lineNumbers, push]

/-- **Step.** A phrase adds its own line and the lines inside of it. -/
theorem lineNumbers_accept {s s' : Script} {p u : List Char} {phrase : Phrase} (hu : u <:+ p)
    (hinside : ∀ name body, phrase = .block name body → InOrder p body u)
    (h : s.accept source (lineOf source p) phrase = .ok s') :
    ∃ l, s'.lineNumbers = s.lineNumbers ++ l ∧ Rises (lineOf source p) l (lineOf source u) := by
  have hle := lineOf_mono source hu
  rcases accept_eq_ok_iff.1 h with ⟨text, -, -, rfl⟩ | ⟨item, hstands, -, rfl⟩
  · exact ⟨[], (List.append_nil _).symm, hle⟩
  · refine ⟨item.lineNumbers, lineNumbers_push s item, ?_⟩
    cases hstands with
    | comment text => exact hle
    | assign name value => exact .single (Nat.le_refl _) hle
    | oneLine name command => exact ⟨Nat.le_refl _, .single (Nat.le_refl _) hle⟩
    | @block name body t ht =>
      obtain ⟨l, hl, hrises⟩ := TargetDecl.bodyLines_foldlM (hinside name body rfl) ht
      have hlines : t.bodyLines = l := hl
      rw [Item.lineNumbers, hlines, (TargetDecl.ofPhrases_eq_ok ht).2]
      exact ⟨Nat.le_refl _, hrises⟩

/-- **Run.** The line numbers of a script go up with its phrases. -/
theorem lineNumbers_foldlM {t r : List Char} {ps : List Placed} (horder : InOrder t ps r) :
    ∀ {s s' : Script}, ps.foldlM (fun s p => s.accept source (lineOf source p.1) p.2) s = .ok s' →
      ∃ l, s'.lineNumbers = s.lineNumbers ++ l ∧ Rises (lineOf source t) l (lineOf source r) := by
  induction horder with
  | nil hr =>
    intro s s' h
    cases h
    exact ⟨[], by simp, lineOf_mono source hr⟩
  | @cons t p u r phrase rest hp hu hinside _ _ ih =>
    intro s s' h
    obtain ⟨mid, hstep, hrest⟩ := foldlM_cons_eq_ok.1 h
    obtain ⟨l, hl, hrises⟩ := lineNumbers_accept hu hinside hstep
    obtain ⟨l', hl', hrises'⟩ := ih hrest
    refine ⟨l ++ l', by rw [hl', hl, List.append_assoc], ?_⟩
    exact (hrises.lower (lineOf_mono source hp)).append hrises'

/-- **The line numbers of a script never go down.** -/
theorem lineNumbers_sorted {source : String} {filename : Option String} {script : Script}
    (h : parse source filename = .ok script) : script.lineNumbers.Pairwise (· ≤ ·) := by
  obtain ⟨ps, hps, hscript⟩ := parse_eq_ok_iff.1 h
  obtain ⟨l, hl, hrises⟩ := lineNumbers_foldlM (Parser.phrases?_inOrder hps) hscript
  have hlines : script.lineNumbers = l := hl
  rw [hlines]
  exact hrises.pairwise

end Script

end TaskRunner
